import Mathlib.Data.List.Infix
import Mathlib.Data.String.Basic
import Runkite.Delimited

/-!
# Text as runes

The string functions of a standard library that a program applies to names and paths :
trimming, splitting at a rune, the search for a substring, the reading of an index. They are
defined on the list of runes, so that they can be evaluated.

`eq_of_append_sep` says when a text can be cut at a separator in one way only.
-/

namespace Strings

/-- Unicode white space. -/
def isSpace (c : Char) : Bool :=
  (9 ≤ c.toNat && c.toNat ≤ 13) || (0x2000 ≤ c.toNat && c.toNat ≤ 0x200a) ||
    c.toNat ∈ [0x20, 0x85, 0xa0, 0x1680, 0x2028, 0x2029, 0x202f, 0x205f, 0x3000]

/-- Drop the white space at both ends. -/
def trimSpace (s : String) : String :=
  String.ofList ((s.toList.dropWhile isSpace).reverse.dropWhile isSpace).reverse

/-- The lower case of a rune, exact where the lower case is an ASCII letter : besides the
ASCII capitals these are the Kelvin sign and the dotted capital I. -/
def lowerRune (c : Char) : Char :=
  if c.toNat = 0x212a then 'k' else if c.toNat = 0x130 then 'i' else c.toLower

def toLower (s : String) : String := String.ofList (s.toList.map lowerRune)

/-- The pieces between the separators, empty ones included. -/
def split (sep : Char) (s : String) : List String := (s.toList.splitOn sep).map String.ofList

def contains (s sub : String) : Bool := sub.toList <:+: s.toList

/-- The first `n` runes. -/
def truncateRunes (s : String) (n : ℕ) : String := String.ofList (s.toList.take n)

/-- A decimal numeral of at least one digit. -/
def natural (cs : List Char) : Option ℕ :=
  if cs.isEmpty || cs.any fun c => !c.isDigit then none
  else some (cs.foldl (fun n c => 10 * n + (c.toNat - '0'.toNat)) 0)

/-- A decimal numeral with an optional sign, whatever its size. -/
def atoi (s : String) : Option ℤ :=
  match s.toList with
  | '-' :: cs => (natural cs).map fun n => -(n : ℤ)
  | '+' :: cs => (natural cs).map fun n => (n : ℤ)
  | cs => (natural cs).map fun n => (n : ℤ)

/-! ## Separators -/

/-- The rune does not occur. -/
def Free (sep : Char) (s : String) : Prop := sep ∉ s.toList

instance (sep : Char) (s : String) : Decidable (Free sep s) :=
  inferInstanceAs (Decidable (¬ _))

variable {a b s t : String}

/-- Texts cut at the first separator are equal piece by piece. -/
theorem eq_of_append_sep {sep : Char} (ha : Free sep a) (hb : Free sep b)
    (h : a ++ (String.singleton sep ++ s) = b ++ (String.singleton sep ++ t)) : a = b ∧ s = t := by
  have hlist := congrArg String.toList h
  simp only [String.toList_append, String.toList_singleton, List.singleton_append] at hlist
  obtain ⟨hab, hst⟩ := Delimited.append_cons_inj ha hb hlist
  exact ⟨String.toList_injective hab, String.toList_injective hst⟩

/-- Texts cut at the last separator are equal piece by piece. -/
theorem eq_of_append_sep_last {sep : Char} (hs : Free sep s) (ht : Free sep t)
    (h : a ++ (String.singleton sep ++ s) = b ++ (String.singleton sep ++ t)) : a = b ∧ s = t := by
  have hlist := congrArg (fun text => text.toList.reverse) h
  simp only [String.toList_append, String.toList_singleton, List.reverse_append,
    List.reverse_cons, List.append_assoc, List.singleton_append] at hlist
  obtain ⟨hst, hab⟩ := Delimited.append_cons_inj (fun hm => hs (List.mem_reverse.1 hm))
    (fun hm => ht (List.mem_reverse.1 hm)) hlist
  exact ⟨String.toList_injective (List.reverse_injective hab),
    String.toList_injective (List.reverse_injective hst)⟩

end Strings
