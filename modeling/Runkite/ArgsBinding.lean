import Runkite.BindArgs
import Runkite.JsonText
import Runkite.NumberToken

/-!
# What is hashed of the arguments

The digest of the arguments of a tool call is taken of a text : a domain, and the JSON document of
the arguments with sorted keys and canonical numbers (`hashedBytes`). Here the numbers are the tokens
of the call, and the text is the one that is hashed, byte by byte.

A token can be read back from its text (`NumberToken.read_text`). So the canonical texts are those of
tokens, one for each number, and a text of no token has none (`canonicalNumber_spec`).
-/

open Binary64 (Decimal)
open Json (Members Text Value NumberTexts Numeric normalize normalizeItems normalizeMembers render)
open Numerals (Digit Plain)

namespace Runkite

open NumberToken

/-! ## Canonical numbers as text -/

def digitChar (d : Digit) : Char := Char.ofNat (48 + d)

theorem isDigit_digitChar : ∀ d, (digitChar d).isDigit := by decide

/-- A minus sign, or none, and digits. -/
def signed (negative : Bool) (digits : List Digit) : List Char :=
  (if negative then ['-'] else []) ++ digits.map digitChar

/-- The text of a number without insignificant zeros, which `CanonicalNumber` makes of its parts. -/
def Parts.text (p : Parts) : List Char :=
  signed p.negative p.coefficient ++
    if p.exponent = .zero then [] else 'e' :: signed p.exponent.negative p.exponent.digits

theorem Exponent.Canonical.digits_ne_nil {e : Exponent} (h : e.Canonical) : e.digits ≠ [] := by
  rcases h with rfl | ⟨d, ds, hd, -⟩
  · nofun
  · rw [hd]
    nofun

theorem Parts.Normal.coefficient_ne_nil {p : Parts} (h : p.Normal) : p.coefficient ≠ [] := by
  rcases h with rfl | ⟨⟨d, ds, hd, -⟩, -, -⟩
  · nofun
  · rw [hd]
    nofun

theorem Parts.Normal.canonical {p : Parts} (h : p.Normal) : p.exponent.Canonical := by
  rcases h with rfl | ⟨-, -, hcan⟩
  · exact .inl rfl
  · exact hcan

/-! ## Tokens as text -/

def ExponentPart.text (e : ExponentPart) : List Char :=
  (if e.upper then 'E' else 'e') ::
    ((e.sign.elim [] fun minus => [if minus then '-' else '+']) ++ e.digits.map digitChar)

def NumberToken.text (t : NumberToken) : List Char :=
  signed t.negative t.int ++
    ((if t.fraction = [] then [] else '.' :: t.fraction.map digitChar) ++
      t.exp.elim [] ExponentPart.text)

def charDigit (c : Char) : Digit := Numerals.digit (c.toNat - 48)

instance (ds : List Digit) : Decidable (Plain ds) :=
  decidable_of_iff (∃ d ∈ ds.head?, d ≠ 0) (by cases ds <;> simp [Plain])

def ExponentPart.read : List Char → Option ExponentPart
  | [] => none
  | c :: s =>
    let digits := (s.dropWhile fun c => c = '+' || c = '-').map charDigit
    if h : digits ≠ [] then
      some ⟨c = 'E', (s.head?.filter fun c => c = '+' || c = '-').map (· = '-'), digits, h⟩
    else none

/-- A text is cut at its sign, its point and its `e`. It is a JSON number if what is found is
written like that. -/
def NumberToken.read (raw : List Char) : Option NumberToken :=
  let unsigned := raw.dropWhile (· = '-')
  let mantissa := unsigned.takeWhile fun c => c ≠ 'e' && c ≠ 'E'
  let int := (mantissa.takeWhile (· ≠ '.')).map charDigit
  if h : int = [0] ∨ Plain int then
    let t : NumberToken := ⟨raw.head? = some '-', int,
      ((mantissa.dropWhile (· ≠ '.')).drop 1).map charDigit,
      ExponentPart.read (unsigned.dropWhile fun c => c ≠ 'e' && c ≠ 'E'), h⟩
    if t.text = raw then some t else none
  else none

def canonicalNumber (raw : List Char) : Option (List Char) :=
  (NumberToken.read raw).map fun t => (numberParts t).text

theorem map_charDigit (ds : List Digit) : (ds.map digitChar).map charDigit = ds := by
  have h : charDigit ∘ digitChar = id := funext (by decide)
  rw [List.map_map, h, List.map_id]

theorem span_eq {p : Char → Bool} {a b : List Char} (ha : ∀ c ∈ a, p c)
    (hb : ∀ c ∈ b.head?, p c = false) :
    (a ++ b).takeWhile p = a ∧ (a ++ b).dropWhile p = b := by
  rw [List.takeWhile_append_of_pos ha, List.dropWhile_append_of_pos ha]
  cases b <;> simp_all

variable {p : Char → Bool} {ds : List Digit}

theorem all_digits (hp : ∀ d, p (digitChar d)) : ∀ c ∈ ds.map digitChar, p c := by
  intro c hc
  obtain ⟨d, -, rfl⟩ := List.mem_map.1 hc
  exact hp d

theorem first_digit (hds : ds ≠ []) (hp : ∀ d, p (digitChar d) = false) (s : List Char) :
    ∀ c ∈ (ds.map digitChar ++ s).head?, p c = false := by
  cases ds with
  | nil => exact absurd rfl hds
  | cons d ds =>
    rintro c ⟨⟩
    exact hp d

theorem ExponentPart.read_text (e : ExponentPart) : ExponentPart.read e.text = some e := by
  obtain ⟨upper, sign, digits, hne⟩ := e
  have hdigits := (span_eq (p := fun c => c = '+' || c = '-')
    (a := sign.elim [] fun minus => [if minus then '-' else '+']) (b := digits.map digitChar)
    (by rcases sign with _ | _ | _ <;> simp)
    (List.append_nil (digits.map digitChar) ▸ first_digit hne (by decide) [])).2
  simp only [text, read, hdigits, map_charDigit]
  rw [dif_pos hne, Option.some_inj, ExponentPart.mk.injEq]
  refine ⟨by cases upper <;> rfl, ?_, rfl⟩
  obtain ⟨d, _, rfl⟩ := List.exists_cons_of_ne_nil hne
  have hd : ∀ d, (digitChar d = '+' || digitChar d = '-') = false := by decide
  rcases sign with _ | _ | _ <;> simp_all

theorem NumberToken.read_text (t : NumberToken) : NumberToken.read t.text = some t := by
  obtain ⟨negative, int, fraction, exp, hint⟩ := t
  let sign := if negative then ['-'] else []
  let point := if fraction = [] then [] else '.' :: fraction.map digitChar
  let power := exp.elim [] ExponentPart.text
  have hraw : NumberToken.text ⟨negative, int, fraction, exp, hint⟩ =
      sign ++ (int.map digitChar ++ (point ++ power)) := List.append_assoc ..
  have hne : int ≠ [] := by
    rcases hint with rfl | ⟨d, ds, rfl, -⟩ <;> nofun
  have hunsigned := (span_eq (p := (· = '-')) (a := sign) (by simp only [sign]; split_ifs <;> simp)
    (first_digit hne (by decide) (point ++ power))).2
  obtain ⟨hmantissa, hpower⟩ := span_eq (p := fun c => c ≠ 'e' && c ≠ 'E')
    (a := int.map digitChar ++ point) (b := power)
    (List.forall_mem_append.2 ⟨all_digits (by decide), by
      simp only [point]
      split_ifs
      · nofun
      · exact List.forall_mem_cons.2 ⟨by decide, all_digits (by decide)⟩⟩)
    (by rcases exp with _ | ⟨_ | _, _, _, _⟩ <;> simp [power, ExponentPart.text])
  obtain ⟨hint', hpoint⟩ := span_eq (p := (· ≠ '.')) (a := int.map digitChar) (b := point)
    (all_digits (by decide)) (by simp only [point]; split_ifs <;> simp)
  have hexp : ExponentPart.read power = exp := by
    cases exp with
    | none => rfl
    | some e => exact e.read_text
  have hfraction : (point.drop 1).map charDigit = fraction := by
    simp only [point]
    split_ifs with hnil
    · exact hnil.symm
    · exact map_charDigit fraction
  have hhead : decide ((sign ++ (int.map digitChar ++ (point ++ power))).head? = some '-') =
      negative := by
    obtain ⟨d, _, rfl⟩ := List.exists_cons_of_ne_nil hne
    have hd : ∀ d, digitChar d ≠ '-' := by decide
    cases negative <;> simp [sign, hd]
  rw [List.append_assoc] at hmantissa hpower
  unfold read
  simp only [hraw, hunsigned, hmantissa, hpower, hint', hpoint, map_charDigit, hexp, hfraction, hhead]
  rw [dif_pos hint, if_pos trivial]

theorem NumberToken.text_of_read {raw : List Char} {t : NumberToken} (h : read raw = some t) :
    t.text = raw := by
  unfold read at h
  dsimp only at h
  split_ifs at h with hint htext
  cases h
  exact htext

/-- The text of a number in normal form is that of a token. -/
def Parts.token (p : Parts) (h : p.Normal) : NumberToken where
  negative := p.negative
  int := p.coefficient
  fraction := []
  exp := if p.exponent = .zero then none
    else some ⟨false, if p.exponent.negative then some true else none, p.exponent.digits,
      h.canonical.digits_ne_nil⟩
  wellFormed := h.imp (congrArg Parts.coefficient) And.left

theorem Parts.text_token (p : Parts) (h : p.Normal) : (p.token h).text = p.text := by
  unfold NumberToken.text token Parts.text
  split_ifs <;> simp_all [ExponentPart.text, signed]

theorem Parts.numberParts_token (p : Parts) (h : p.Normal) : numberParts (p.token h) = p := by
  refine (normal_numberParts _).eq_of_toRat_eq h ?_
  rw [toRat_numberParts, NumberToken.toRat, Parts.toRat]
  by_cases hzero : p.exponent = .zero <;> cases hn : p.exponent.negative <;>
    simp [token, NumberToken.exponent, hzero, hn, Exponent.toInt]

/-- The parts of a number can be read off its text. -/
theorem Parts.Normal.text_inj {p q : Parts} (hp : p.Normal) (hq : q.Normal)
    (h : p.text = q.text) : p = q := by
  rw [← p.text_token hp, ← q.text_token hq] at h
  have hread := congrArg NumberToken.read h
  rw [NumberToken.read_text, NumberToken.read_text, Option.some_inj] at hread
  rw [← p.numberParts_token hp, hread, q.numberParts_token hq]

/-- A number is written in one way for each value, and no other text is accepted. -/
theorem canonicalNumber_spec (raw : List Char) :
    (∀ t : NumberToken, t.text = raw → ∃ u : NumberToken, canonicalNumber raw = some u.text ∧
      u.toRat = t.toRat ∧ canonicalNumber u.text = some u.text ∧
      ∀ t' : NumberToken, canonicalNumber t'.text = some u.text ↔ t'.toRat = t.toRat) ∧
    ((∀ t : NumberToken, t.text ≠ raw) → canonicalNumber raw = none) := by
  have hcanonical : ∀ t : NumberToken, canonicalNumber t.text = some (numberParts t).text := by
    intro t
    rw [canonicalNumber, NumberToken.read_text, Option.map_some]
  constructor
  · rintro t rfl
    have h := normal_numberParts t
    refine ⟨(numberParts t).token h, ?_, ?_, ?_, fun t' => ?_⟩
    · rw [hcanonical, Parts.text_token]
    · rw [← toRat_numberParts, Parts.numberParts_token, toRat_numberParts]
    · rw [hcanonical, Parts.numberParts_token, Parts.text_token]
    · rw [hcanonical, Parts.text_token, Option.some_inj, ← numberParts_eq_iff]
      exact ⟨(normal_numberParts t').text_inj h, congrArg Parts.text⟩
  · intro hnone
    rw [canonicalNumber, Option.map_eq_none_iff, Option.eq_none_iff_forall_ne_some]
    exact fun t ht => hnone t (NumberToken.text_of_read ht)

/-! ## Canonical numbers -/

/-- A number in the one way in which it is hashed. -/
abbrev CanonicalNumber := {p : Parts // p.Normal}

def canonicalParts (t : NumberToken) : CanonicalNumber := ⟨numberParts t, normal_numberParts t⟩

theorem numeric_signed {negative : Bool} {digits : List Digit} {c : Char}
    (h : c ∈ signed negative digits) : c.isDigit ∨ c = '-' := by
  rcases List.mem_append.1 h with hsign | hdigit
  · cases negative with
    | false => cases hsign
    | true => exact .inr (List.mem_singleton.1 hsign)
  · obtain ⟨d, -, rfl⟩ := List.mem_map.1 hdigit
    exact .inl (isDigit_digitChar d)

theorem numberTexts : NumberTexts fun n : CanonicalNumber => n.1.text where
  first n := by
    have hne : signed n.1.negative n.1.coefficient ≠ [] := by
      rw [signed, ne_eq, List.append_eq_nil_iff, List.map_eq_nil_iff]
      exact fun h => n.2.coefficient_ne_nil h.2
    obtain ⟨c, s, hcs⟩ := List.exists_cons_of_ne_nil hne
    have hmem : c ∈ signed n.1.negative n.1.coefficient := by
      rw [hcs]
      exact List.mem_cons_self
    exact ⟨c, _, by rw [Parts.text, hcs, List.cons_append], numeric_signed hmem⟩
  numeric n c hc := by
    rcases List.mem_append.1 hc with hsigned | htail
    · exact (numeric_signed hsigned).imp_right .inl
    · split_ifs at htail
      · cases htail
      · rcases List.mem_cons.1 htail with rfl | hsigned
        · exact .inr (.inr rfl)
        · exact (numeric_signed hsigned).imp_right .inl
  injective n m h := Subtype.ext (n.2.text_inj m.2 h)

/-! ## Texts of arguments -/

mutual

def mapNumbers {ν μ : Type} (f : ν → μ) : Value ν → Value μ
  | .null => .null
  | .bool b => .bool b
  | .number n => .number (f n)
  | .string s => .string s
  | .array vs => .array (mapItems f vs)
  | .object ms => .object (mapMembers f ms)

def mapItems {ν μ : Type} (f : ν → μ) : List (Value ν) → List (Value μ)
  | [] => []
  | v :: vs => mapNumbers f v :: mapItems f vs

def mapMembers {ν μ : Type} (f : ν → μ) : List (String × Value ν) → List (String × Value μ)
  | [] => []
  | (k, v) :: ms => (k, mapNumbers f v) :: mapMembers f ms

end

def NumberToken.decimal (t : NumberToken) : Decimal where
  coefficient := (if t.negative then -1 else 1) * (Numerals.value (t.int ++ t.fraction) : ℤ)
  exponent := t.exponent.toInt - t.fraction.length

theorem NumberToken.toRat_decimal (t : NumberToken) : t.decimal.toRat = t.toRat := by
  unfold Decimal.toRat decimal toRat
  cases t.negative <;> simp

/-- The raw arguments of a call : none, a document, or bytes that are none. -/
inductive ArgsText where
  | empty
  | document (v : Value NumberToken)
  | malformed

namespace ArgsText

/-- The same text, its numbers as literals. -/
def text : ArgsText → Text
  | .empty => .empty
  | .document v => .document (mapNumbers NumberToken.decimal v)
  | .malformed => .malformed

/-- `parseCallArguments`, with the numbers kept as tokens. -/
def parsed : ArgsText → Option (Value NumberToken)
  | .empty => some (.object [])
  | .document .null => some (.object [])
  | .document v => if uniqueValue (mapNumbers NumberToken.decimal v) then some v else none
  | .malformed => none

theorem map_parsed (a : ArgsText) :
    a.parsed.map (mapNumbers decimal) = parseCallArguments a.text := by
  have hmap : ∀ (b : Bool) (v : Value NumberToken),
      (if b then some v else none).map (mapNumbers decimal) =
        if b then some (mapNumbers decimal v) else none := by
    intro b v
    cases b <;> rfl
  cases a with
  | empty | malformed => rfl
  | document v =>
    cases v with
    | null | bool | number | string => rfl
    | array | object => exact hmap _ _

end ArgsText

section

variable {ν μ : Type} {f : ν → μ}

mutual

theorem keyed_mapNumbers : ∀ {v : Value ν}, (mapNumbers f v).Keyed → v.Keyed
  | .null, _ | .bool _, _ | .number _, _ | .string _, _ => trivial
  | .array _, h => keyedItems_mapItems h
  | .object ms, h => by
    refine ⟨?_, keyedMembers_mapMembers h.2⟩
    have hkeys := h.1
    rwa [Members.Distinct, keys_mapMembers] at hkeys

theorem keyedItems_mapItems : ∀ {vs : List (Value ν)},
    Json.KeyedItems (mapItems f vs) → Json.KeyedItems vs
  | [], _ => trivial
  | _ :: _, h => ⟨keyed_mapNumbers h.1, keyedItems_mapItems h.2⟩

theorem keyedMembers_mapMembers : ∀ {ms : List (String × Value ν)},
    Json.KeyedMembers (mapMembers f ms) → Json.KeyedMembers ms
  | [], _ => trivial
  | (_, _) :: _, h => ⟨keyed_mapNumbers h.1, keyedMembers_mapMembers h.2⟩

theorem keys_mapMembers : ∀ {ms : List (String × Value ν)},
    (mapMembers f ms).map Prod.fst = ms.map Prod.fst
  | [] => rfl
  | (k, v) :: ms => by rw [mapMembers, List.map_cons, List.map_cons, keys_mapMembers]

end

end

theorem ArgsText.keyed_of_parsed {a : ArgsText} {v : Value NumberToken} (h : a.parsed = some v) :
    v.Keyed := by
  refine keyed_mapNumbers (f := decimal) ?_
  refine keyed_of_parseCallArguments (?_ : parseCallArguments a.text = _)
  rw [← a.map_parsed, h, Option.map_some]

/-! ## The bytes -/

/-- What `digestArgs` hashes. -/
def hashedBytes (v : Value NumberToken) : ByteArray :=
  ("runkite-policy-args-v2\x00" ++
    String.ofList (render (fun n : CanonicalNumber => n.1.text) (normalize canonicalParts v))).toUTF8

/-- `jsonvalue.Equal`. -/
def jsonEqual (v w : Value NumberToken) : Bool := v.equalWith equalNumbers w

variable {v w : Value NumberToken}

theorem hashedBytes_eq_iff :
    hashedBytes v = hashedBytes w ↔ normalize canonicalParts v = normalize canonicalParts w := by
  constructor
  · intro h
    have hstring := String.toByteArray_inj.1 h
    have hrender := String.ofList_injective ((String.append_right_inj _).1 hstring)
    exact Json.render_injective numberTexts hrender
  · intro h
    rw [hashedBytes, h, hashedBytes]

mutual

/-- The canonical form over the rational numbers is a normal form. -/
theorem canonicalDigestValue_mapNumbers : ∀ v,
    canonicalDigestValue (mapNumbers decimal v) = some (normalize toRat v)
  | .null | .bool _ => rfl
  | .number t => by
    rw [mapNumbers, canonicalDigestValue, Json.traverse, toRat_decimal]
    rfl
  | .string _ => rfl
  | .array vs => by
    rw [mapNumbers, canonicalDigestValue, Json.traverse, traverseItems_mapItems vs]
    rfl
  | .object ms => by
    rw [mapNumbers, canonicalDigestValue, Json.traverse, traverseMembers_mapMembers ms]
    rfl

theorem traverseItems_mapItems : ∀ vs : List (Value NumberToken),
    Json.traverseItems (fun d => some d.toRat) Members.sortKeys
      (mapItems decimal vs) = some (normalizeItems toRat vs)
  | [] => rfl
  | v :: vs => by
    have hv := canonicalDigestValue_mapNumbers v
    rw [canonicalDigestValue] at hv
    rw [mapItems, Json.traverseItems, hv, traverseItems_mapItems vs]
    rfl

theorem traverseMembers_mapMembers : ∀ ms : List (String × Value NumberToken),
    Json.traverseMembers (fun d => some d.toRat) Members.sortKeys
      (mapMembers decimal ms) = some (normalizeMembers toRat ms)
  | [] => rfl
  | (k, v) :: ms => by
    have hv := canonicalDigestValue_mapNumbers v
    rw [canonicalDigestValue] at hv
    rw [mapMembers, Json.traverseMembers, hv, traverseMembers_mapMembers ms]
    rfl

end

/-- Of arguments that are accepted the same bytes are hashed if and only if they are equal. This is
equality of their canonical forms over the rational numbers, and without a collision of the two
texts it is what equal digests mean. -/
theorem argument_binding (a b : ArgsText) (v w : Value NumberToken) (ha : a.parsed = some v)
    (hb : b.parsed = some w) : (hashedBytes v = hashedBytes w ↔ jsonEqual v w = true) ∧
    (jsonEqual v w = true ↔ canonicalDigestValue (mapNumbers NumberToken.decimal v) =
      canonicalDigestValue (mapNumbers NumberToken.decimal w)) ∧
    ∀ sha256 : ByteArray → String,
      (sha256 (hashedBytes v) = sha256 (hashedBytes w) → hashedBytes v = hashedBytes w) →
      (sha256 (hashedBytes v) = sha256 (hashedBytes w) ↔ jsonEqual v w = true) := by
  have hv := a.keyed_of_parsed ha
  have hw := b.keyed_of_parsed hb
  have hbytes : hashedBytes v = hashedBytes w ↔ jsonEqual v w := by
    rw [hashedBytes_eq_iff]
    refine (Json.equalWith_iff_normalize (fun s t => ?_) hv hw).symm
    rw [equalNumbers, decide_eq_true_eq, canonicalParts, canonicalParts, Subtype.mk.injEq]
  refine ⟨hbytes, ?_, fun sha256 hcollision => ?_⟩
  · rw [canonicalDigestValue_mapNumbers, canonicalDigestValue_mapNumbers, Option.some.injEq]
    refine Json.equalWith_iff_normalize (fun a b => ?_) hv hw
    rw [equalNumbers, decide_eq_true_eq, numberParts_eq_iff]
  · exact ⟨fun h => hbytes.1 (hcollision h), fun h => by rw [hbytes.2 h]⟩

/-- The token of a number with one digit before the point. -/
def oneDigit (d : Digit) (fraction : List Digit) (exp : Option ExponentPart) : NumberToken where
  negative := false
  int := [d]
  fraction := fraction
  exp := exp
  wellFormed := by
    by_cases h : d = 0
    · exact .inl (by rw [h])
    · exact .inr ⟨d, [], rfl, h⟩

/-- The arguments `{"to":"x","amount":5.0}`. -/
def fiveFirst : ArgsText :=
  .document (.object [("to", .string "x"), ("amount", .number (oneDigit 5 [0] none))])

/-- The arguments `{"amount":0.05E+2,"to":"x"}`. -/
def fiveScaled : ArgsText :=
  .document (.object [("amount", .number (oneDigit 0 [0, 5] (some ⟨true, some false, [2], by simp⟩))),
    ("to", .string "x")])

theorem argument_binding_five : ∃ v w, fiveFirst.parsed = some v ∧ fiveScaled.parsed = some w ∧
    hashedBytes v = hashedBytes w :=
  ⟨_, _, rfl, rfl, (argument_binding fiveFirst fiveScaled _ _ rfl rfl).1.2 (by decide +kernel)⟩

end Runkite
