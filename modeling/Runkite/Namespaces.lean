import Runkite.Strings

/-!
# Namespaces of store items

The items of the store are filed under namespaces, which are lists of segments. A namespace is one
column of the table : the segments with the unit separator between them and around them. The Go store
and the Python runner have the same codec, each its own copy. Neither checks the segments, and the
handlers of the store API do not either : `PUT /store/items` takes every list of strings.

`namespaces_keptApart_iff` says which namespaces the codec keeps : those without the separator in a segment and
without an empty segment at an end. The root namespace and the namespace of one empty segment are
filed in the same place.
-/

namespace Runkite

/-! ## The codec -/

def nsDelim : Char := Char.ofNat 0x1f

/-- The segments with the delimiter between them and around them. -/
def wrapNs (delim : Char) (ns : List String) : String :=
  String.ofList (Delimited.wrap delim (ns.map String.toList))

/-- The segments of what is left when the delimiters at the ends are taken off. -/
def unwrapNs (delim : Char) (s : String) : List String :=
  (Delimited.unwrap delim s.toList).map String.ofList

def nsToString (ns : List String) : String := wrapNs nsDelim ns

def stringToNs (s : String) : List String := unwrapNs nsDelim s

namespace Runner

def nsDelim : Char := Char.ofNat 0x1f

def nsToString (ns : List String) : String := wrapNs Runner.nsDelim ns

def stringToNs (s : String) : List String := unwrapNs Runner.nsDelim s

end Runner

/-! ## What the codec keeps -/

/-- A namespace that is filed under a name of its own : the delimiter is in none of its segments, and
the segments at its ends are not empty. -/
structure Whole (ns : List String) : Prop where
  free : ∀ s ∈ ns, Strings.Free nsDelim s
  head : ns.head? ≠ some ""
  last : ns.getLast? ≠ some ""

theorem map_ofList_toList (ns : List String) : (ns.map String.toList).map String.ofList = ns := by
  simp [Function.comp_def]

theorem whole_iff_clean (ns : List String) :
    Whole ns ↔ Delimited.Clean nsDelim (ns.map String.toList) := by
  have hend : ∀ o, o.map String.toList = some [] ↔ o = some "" := by
    intro o
    cases o with
    | none | some => simp
  constructor
  · intro h
    refine ⟨?_, ?_, ?_⟩
    · intro l hl
      obtain ⟨s, hs, rfl⟩ := List.mem_map.1 hl
      exact h.free s hs
    · rw [List.head?_map, Ne, hend]
      exact h.head
    · rw [List.getLast?_map, Ne, hend]
      exact h.last
  · intro h
    refine ⟨fun s hs => h.free _ (List.mem_map_of_mem hs), ?_, ?_⟩
    · rw [Ne, ← hend, ← List.head?_map]
      exact h.head
    · rw [Ne, ← hend, ← List.getLast?_map]
      exact h.last

theorem unwrapNs_wrapNs_iff (ns : List String) :
    unwrapNs nsDelim (wrapNs nsDelim ns) = ns ↔ Whole ns := by
  rw [whole_iff_clean, ← Delimited.unwrap_wrap_iff, unwrapNs, wrapNs, String.toList_ofList]
  constructor
  · intro h
    have hm := congrArg (List.map String.toList) h
    simpa [Function.comp_def] using hm
  · intro h
    rw [h, map_ofList_toList]

/-- Two namespaces that a codec keeps apart : different ones are stored differently, and each is read
back as it was written. -/
def KeptApart (toString : List String → String) (ofString : String → List String)
    (a b : List String) : Prop :=
  (a ≠ b → toString a ≠ toString b) ∧ ofString (toString a) = a ∧ ofString (toString b) = b

theorem keptApart_iff_readBack (toString : List String → String) (ofString : String → List String)
    (a b : List String) :
    KeptApart toString ofString a b ↔ ofString (toString a) = a ∧ ofString (toString b) = b := by
  constructor
  · exact And.right
  · rintro ⟨ha, hb⟩
    refine ⟨fun hne heq => hne ?_, ha, hb⟩
    calc a = ofString (toString a) := ha.symm
      _ = ofString (toString b) := by rw [heq]
      _ = b := hb

/-- Of the namespaces that the store API takes, the store and the runner keep those apart that have no
delimiter in a segment and no empty segment at an end. -/
theorem namespaces_keptApart_iff (a b : List String) :
    KeptApart nsToString stringToNs a b ∧ KeptApart Runner.nsToString Runner.stringToNs a b ↔
      Whole a ∧ Whole b := by
  have hgo : KeptApart nsToString stringToNs a b ↔ Whole a ∧ Whole b := by
    rw [keptApart_iff_readBack]
    exact and_congr (unwrapNs_wrapNs_iff a) (unwrapNs_wrapNs_iff b)
  have hpy : KeptApart Runner.nsToString Runner.stringToNs a b ↔
      KeptApart nsToString stringToNs a b := Iff.rfl
  rw [hpy, and_self, hgo]

/-- The root namespace and the namespace of one empty segment are stored alike, in the store and in
the runner. -/
theorem root_not_keptApart : nsToString [] = nsToString [""] ∧ stringToNs (nsToString [""]) = [] ∧
    ¬KeptApart nsToString stringToNs [] [""] ∧
    ¬KeptApart Runner.nsToString Runner.stringToNs [] [""] := by
  have hshared : nsToString [] = nsToString [""] := by decide
  refine ⟨hshared, by decide, ?_, ?_⟩
  · exact fun h => h.1 (by decide) hshared
  · exact fun h => h.1 (by decide) hshared

end Runkite
