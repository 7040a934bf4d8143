import Mathlib.Data.List.Infix
import Runkite.Trace

/-!
# The limit of a response

`mcpLimitedBody` counts the bytes of a response as they are read and asks for at most one byte more
than is allowed. A body within the limit arrives as it is. Of a longer one at most that byte too much
arrives before every `Read` fails (`limited_body`). The limit is below the largest `int64`, so that
the one byte more fits.
-/

namespace Runkite.ResponseLimit

def errBodyTooLarge : String := "connector body exceeds size limit"

/-- The bytes that a body has left, and the error that ends it. -/
structure Body where
  data : List UInt8
  final : String

/-- A `Read`, as the caller and the body shape it. -/
structure Call where
  /-- The length of the buffer. -/
  size : ℕ
  /-- The bytes that the body has ready. -/
  ready : ℕ
  /-- It reports its end with its last bytes, or as soon as it has none. -/
  eager : Bool

abbrev Result := List UInt8 × Option String

def Body.read (b : Body) (size : ℕ) (c : Call) : Result × Body :=
  let n := min size c.ready
  let left := b.data.drop n
  ((b.data.take n, if left = [] ∧ c.eager then some b.final else none), { b with data := left })

/-- `mcpLimitedBody`. -/
structure Limited where
  body : Body
  remaining : ℤ
  oversized : Option Bool

def Limited.read (r : Limited) (c : Call) : Result × Limited :=
  if r.remaining < 0 then (([], some errBodyTooLarge), r)
  else
    let size := if c.size > r.remaining + 1 then (r.remaining + 1).toNat else c.size
    let ((chunk, err), body) := r.body.read size c
    let remaining := r.remaining - chunk.length
    if remaining < 0 then
      ((chunk, some errBodyTooLarge), ⟨body, remaining, r.oversized.map fun _ => true⟩)
    else ((chunk, err), ⟨body, remaining, r.oversized⟩)

/-- A `Read` fails, or it takes at most one byte too many. -/
theorem Limited.read_cases (r : Limited) (c : Call) :
    r.remaining < 0 ∧ r.read c = (([], some errBodyTooLarge), r) ∨
    ∃ chunk left oversized, r.body.data = chunk ++ left ∧ chunk.length ≤ r.remaining + 1 ∧
      (0 < c.size → 0 < c.ready → chunk = [] → left = []) ∧
      r.read c = ((chunk, if r.remaining < chunk.length then some errBodyTooLarge
          else if left = [] ∧ c.eager then some r.body.final else none),
        ⟨{ r.body with data := left }, r.remaining - chunk.length, oversized⟩) := by
  by_cases hneg : r.remaining < 0
  · exact .inl ⟨hneg, if_pos hneg⟩
  have hsize : (if c.size > r.remaining + 1 then (r.remaining + 1).toNat else c.size) =
      min c.size (r.remaining + 1).toNat := by
    split_ifs <;> omega
  rw [read, if_neg hneg]
  simp only [hsize, Body.read, sub_neg]
  generalize hn : min (min c.size (r.remaining + 1).toNat) c.ready = n
  refine .inr ⟨r.body.data.take n, r.body.data.drop n, ?_⟩
  have hlen : ((r.body.data.take n).length : ℤ) ≤ r.remaining + 1 := by
    rw [List.length_take]
    omega
  have hempty : 0 < c.size → 0 < c.ready → r.body.data.take n = [] → r.body.data.drop n = [] := by
    intro hsize hready hnil
    rcases List.take_eq_nil_iff.1 hnil with h | h
    · omega
    · rw [h, List.drop_nil]
  split_ifs <;> exact ⟨_, (List.take_append_drop ..).symm, hlen, hempty, rfl⟩

/-- What was delivered, and the reader. -/
abbrev Reading := List UInt8 × Limited

def Reading.read (c : Call) (s : Reading) : Reading := (s.1 ++ (s.2.read c).1.1, (s.2.read c).2)

/-- The reader has passed on the beginning of `b` and counted it. -/
def Reading.Counts (b : Body) (limit : ℕ) (s : Reading) : Prop :=
  b = ⟨s.1 ++ s.2.body.data, s.2.body.final⟩ ∧ s.2.remaining = limit - s.1.length ∧
    s.1.length ≤ limit + 1

theorem Reading.counts_read {b : Body} {limit : ℕ} (c : Call) {s : Reading} (h : s.Counts b limit) :
    let x := (s.2.read c).1
    let d := (s.read c).1
    (s.read c).Counts b limit ∧
      x.2 = (if limit < d.length then some errBodyTooLarge
        else if d = b.data ∧ c.eager then some b.final else none) ∧
      (0 < c.size → 0 < c.ready → x.1 = [] → d = b.data ∨ limit < d.length) := by
  obtain ⟨rfl, hremaining, hlen⟩ := h
  rcases s.2.read_cases c with ⟨hneg, hread⟩ | ⟨chunk, left, _, hdata, hcount, hempty, hread⟩
  · have hlimit : limit < s.1.length := by omega
    simp [read, Counts, hread, hremaining, hlen, hlimit]
  · have hover : s.2.remaining < chunk.length ↔ limit < (s.1 ++ chunk).length := by
      rw [List.length_append]
      omega
    have hend : s.1 ++ chunk = s.1 ++ s.2.body.data ↔ left = [] := by
      rw [hdata]
      simp
    simp only [read, Counts, hread, hover, hend]
    refine ⟨⟨by rw [hdata, List.append_assoc], ?_⟩, trivial, fun hsize hready hnil => ?_⟩
    · rw [List.length_append]
      omega
    · exact .inl (hempty hsize hready hnil)

/-- All that arrives is the beginning of the body. Within the limit it ends as the body does. A longer
body has no end, and each `Read` that passes the limit, and every one after it, fails. Only then, and
when all has arrived, does a `Read` of something that is ready bring nothing. -/
theorem limited_body (b : Body) (limit : ℕ) (oversized : Option Bool) (cs : List Call) (c : Call) :
    let s : Reading := Trace.run Reading.read cs ([], ⟨b, limit, oversized⟩)
    let x := (s.2.read c).1
    let d := s.1 ++ x.1
    d <+: b.data ∧ d.length ≤ limit + 1 ∧
    (b.data.length ≤ limit → x.2 = if d = b.data ∧ c.eager then some b.final else none) ∧
    (limit < b.data.length → x.2 = if d.length ≤ limit then none else some errBodyTooLarge) ∧
    (0 < c.size → 0 < c.ready → x.1 = [] → d = b.data ∨ limit < d.length) := by
  intro s x d
  have hinit : Reading.Counts b limit ([], ⟨b, limit, oversized⟩) := ⟨rfl, by simp, by simp⟩
  have hstep : ∀ c (s : Reading), s.Counts b limit → (s.read c).Counts b limit :=
    fun c _ h => (Reading.counts_read c h).1
  have hs : s.Counts b limit := Trace.invariant_of_step hstep cs hinit
  obtain ⟨⟨hb, -, hlen⟩, herr, hempty⟩ := Reading.counts_read c hs
  have hbegins : d <+: b.data := hb ▸ List.prefix_append ..
  have hle := hbegins.length_le
  refine ⟨hbegins, hlen, fun h => herr.trans (if_neg (not_lt.2 (hle.trans h))), fun h => ?_, hempty⟩
  rcases le_or_gt d.length limit with hd | hd
  · have hne : d ≠ b.data := fun heq => by
      rw [← heq] at h
      omega
    rw [if_pos hd]
    exact (herr.trans (if_neg hd.not_gt)).trans (if_neg fun heq => hne heq.1)
  · rw [if_neg hd.not_ge]
    exact herr.trans (if_pos hd)

end Runkite.ResponseLimit
