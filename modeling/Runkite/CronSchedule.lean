import Mathlib.Data.List.Nodup
import Mathlib.Tactic.Ring
import Runkite.Trace

/-!
# The due check of a cron schedule

`checkSchedule` asks the parsed expression for the fire after `last` and then follows `Next` to the
latest one not after `now`. The loop has no bound in the source, so it takes `fuel` here. `Next` is
the parser library's. `FindsNext` is what is assumed of it : a cron expression gives the earliest
match up to a limit, and the zero time where it finds none; the zero time is not after `now`, and the
loop then starts over from it. `Live` says that this does not happen.

`reports` is the scheduler loop on one schedule. A tick that is not due moves the anchor to its own
time. For a cron expression no fire is skipped that way, for `@every` the delay starts over.
`Schedulers` are the loops of several replicas, which claim a fire in the database before they
dispatch it.
-/

namespace Runkite.Cron

/-- A cron expression as the instants it matches, or `@every`. Instants are nanoseconds since the
zero time. -/
inductive Expression where
  | spec (fires : ℕ → Bool)
  | every (delay : ℕ) (pos : 0 < delay)

/-- What `ParseStandard` gives. -/
structure Schedule where
  expression : Expression
  next : ℕ → ℕ

namespace Schedule

variable {s : Schedule} {last now t u fuel : ℕ}

/-- `Next` gives the earliest match after `t` up to the limit of its search, which does not go back
as `t` moves on, and else the zero time; for `@every`, it adds the delay. -/
def FindsNext (s : Schedule) : Prop :=
  match s.expression with
  | .spec fires => ∃ limit : ℕ → ℕ, Monotone limit ∧ ∀ t,
    (s.next t = 0 ∧ ∀ u, t < u → u ≤ limit t → fires u = false) ∨
    (t < s.next t ∧ s.next t ≤ limit t ∧ fires (s.next t) ∧
      ∀ u, t < u → u < s.next t → fires u = false)
  | .every delay _ => ∀ t, s.next t = t + delay

/-- The loop of `checkSchedule`, for at most `fuel` rounds. -/
def latest (s : Schedule) (now : ℕ) : ℕ → ℕ → Option ℕ
  | 0, _ => none
  | fuel + 1, fireTime =>
    if now < s.next fireTime then some fireTime else s.latest now fuel (s.next fireTime)

/-- The fire time to claim, if the schedule is due; no result if the loop runs out of `fuel`. -/
def checkSchedule (s : Schedule) (fuel last now : ℕ) : Option (Option ℕ) :=
  if now < s.next last then some none else (s.latest now fuel (s.next last)).map some

/-- The fire times, as they are counted from `last`. -/
def Fires (last t : ℕ) (s : Schedule) : Prop :=
  match s.expression with
  | .spec fires => fires t
  | .every delay _ => ∃ k, t = last + (k + 1) * delay

/-- `t` is a fire time after `last` and not after `now`. -/
structure Due (s : Schedule) (last now t : ℕ) : Prop where
  fires : s.Fires last t
  after : last < t
  arrived : t ≤ now

/-- From every instant from `last` to `now` the schedule finds a next fire. -/
def Live (s : Schedule) (last now : ℕ) : Prop := ∀ t, last ≤ t → t ≤ now → s.next t ≠ 0

section

variable (hnext : s.FindsNext)
include hnext

/-- `Next` leads from a fire to the fire that follows it. -/
theorem next_follows (h : s.next t ≠ 0) (ht : t = last ∨ s.Fires last t) :
    t < s.next t ∧ s.Fires last (s.next t) ∧
      ∀ u, t < u → u < s.next t → ¬ s.Fires last u := by
  obtain ⟨expression, next⟩ := s
  cases expression with
  | spec fires =>
    obtain ⟨_, -, hfinds⟩ := hnext
    rcases hfinds t with ⟨hzero, -⟩ | ⟨hlt, -, hfires, hfirst⟩
    · exact absurd hzero h
    · exact ⟨hlt, hfires, fun u hu hnext => by simp [Fires, hfirst u hu hnext]⟩
  | every delay pos =>
    obtain ⟨j, rfl⟩ : ∃ j, t = last + j * delay := by
      rcases ht with rfl | ⟨j, rfl⟩
      · exact ⟨0, by simp⟩
      · exact ⟨j + 1, rfl⟩
    have hnext : next (last + j * delay) = last + j * delay + delay := hnext _
    simp only [hnext]
    refine ⟨Nat.lt_add_of_pos_right pos, ⟨j, by ring⟩, ?_⟩
    rintro u hu hnext ⟨k, rfl⟩
    have hlow : j < k + 1 := Nat.lt_of_mul_lt_mul_right (Nat.lt_of_add_lt_add_left hu)
    have hhigh : k + 1 < j + 1 := by
      refine Nat.lt_of_mul_lt_mul_right (a := delay) ?_
      rw [Nat.succ_mul j]
      omega
    omega

/-- Where a next fire is always found, the loop ends within `now + 1 - t` rounds, at the latest
fire not after `now`. -/
theorem exists_latest (hlive : s.Live last now) : ∀ {fuel t : ℕ}, s.Due last now t →
    now < t + fuel → ∃ r, s.latest now fuel t = some r ∧ s.Due last now r ∧
      ∀ u, s.Due last now u → u ≤ r
  | 0, t, hdue, hfuel => absurd hdue.arrived (by omega)
  | fuel + 1, t, hdue, hfuel => by
    obtain ⟨hlt, hfires, hbetween⟩ :=
      next_follows hnext (hlive t hdue.after.le hdue.arrived) (.inr hdue.fires)
    by_cases hnow : now < s.next t
    · refine ⟨t, by rw [latest, if_pos hnow], hdue, fun u hu => ?_⟩
      by_contra htu
      exact hbetween u (by omega) (hu.arrived.trans_lt hnow) hu.fires
    · have hdue' : s.Due last now (s.next t) :=
        ⟨hfires, hdue.after.trans hlt, by omega⟩
      rw [latest, if_neg hnow]
      exact exists_latest hlive hdue' (by omega)

/-- A schedule that finds no fire from an instant `g` never gets past it again. -/
theorem next_le {g : ℕ} (hg : s.next g = 0) (h : t ≤ g) : s.next t ≤ g := by
  obtain ⟨expression, next⟩ := s
  cases expression with
  | spec fires =>
    obtain ⟨limit, hmono, hfinds⟩ := hnext
    rcases hfinds t with ⟨hzero, -⟩ | ⟨_, hlimit, hfires, -⟩
    · exact hzero.le.trans g.zero_le
    · rcases hfinds g with ⟨-, hgap⟩ | ⟨hlt, -⟩
      · by_contra hle
        have := hgap _ (by omega) (hlimit.trans (hmono h))
        simp [this] at hfires
      · omega
  | every =>
    have := (hnext g).symm.trans hg
    omega

theorem latest_eq_none {g : ℕ} (hg : s.next g = 0) (hnow : g ≤ now) :
    ∀ (fuel : ℕ) {t : ℕ}, t ≤ g → s.latest now fuel t = none
  | 0, _, _ => rfl
  | fuel + 1, t, ht => by
    have hle := next_le hnext hg ht
    rw [latest, if_neg (by omega)]
    exact latest_eq_none hg hnow fuel hle

/-- What the due check gives. -/
theorem checkSchedule_of_live (h : last ≤ now) (hlive : s.Live last now) :
    (s.checkSchedule (now + 1) last now = some none ∧ ∀ t, ¬ s.Due last now t) ∨
      ∃ r, s.checkSchedule (now + 1) last now = some (some r) ∧ s.Due last now r ∧
        ∀ u, s.Due last now u → u ≤ r := by
  obtain ⟨hlt, hfires, hbetween⟩ := next_follows hnext (hlive last le_rfl h) (.inl rfl)
  by_cases hnow : now < s.next last
  · refine .inl ⟨by rw [checkSchedule, if_pos hnow], fun t ht => ?_⟩
    exact hbetween t ht.after (ht.arrived.trans_lt hnow) ht.fires
  · have hdue : s.Due last now (s.next last) := ⟨hfires, hlt, by omega⟩
    obtain ⟨r, hr, hbest⟩ := exists_latest hnext hlive hdue (show now < s.next last + (now + 1) by omega)
    exact .inr ⟨r, by rw [checkSchedule, if_neg hnow, hr]; rfl, hbest⟩

theorem checkSchedule_eq_none (hlive : ¬ s.Live last now) (fuel : ℕ) :
    s.checkSchedule fuel last now = none := by
  simp only [Live, not_forall, not_not] at hlive
  obtain ⟨g, hlast, hnow, hg⟩ := hlive
  have hle := next_le hnext hg hlast
  rw [checkSchedule, if_neg (by omega), latest_eq_none hnext hg hnow fuel hle]
  rfl

end

/-- The due check returns, and reports a fire exactly if there is one, exactly if the schedule finds
a next fire from every instant from `last` to `now`. -/
theorem checkSchedule_returns_iff (s : Schedule) (hnext : s.FindsNext) {last now : ℕ}
    (h : last ≤ now) :
    (∃ fuel r, s.checkSchedule fuel last now = some r ∧ (r.isSome ↔ ∃ t, s.Due last now t)) ↔
      s.Live last now := by
  constructor
  · rintro ⟨fuel, r, hr, -⟩
    by_contra hlive
    simp [checkSchedule_eq_none hnext hlive] at hr
  · intro hlive
    rcases checkSchedule_of_live hnext h hlive with ⟨hr, hnone⟩ | ⟨r, hr, hdue, -⟩
    · exact ⟨_, _, hr, by simpa using hnone⟩
    · exact ⟨_, _, hr, by simpa using ⟨r, hdue⟩⟩

def second : ℕ := 10 ^ 9

/-- `@every 60s`. -/
def everyMinute : Schedule := ⟨.every (60 * second) (by decide), (· + 60 * second)⟩

theorem findsNext_everyMinute : everyMinute.FindsNext := fun _ => rfl

theorem checkSchedule_returns_every :
    (∃ fuel r, everyMinute.checkSchedule fuel (10 * second) (200 * second) = some r ∧
      (r.isSome ↔ ∃ t, everyMinute.Due (10 * second) (200 * second) t)) :=
  (checkSchedule_returns_iff everyMinute findsNext_everyMinute (by decide)).2 fun t _ _ => by
    simp [everyMinute, second]

/-- The expression `0 0 30 2 *`, which no date matches. -/
def february30 : Schedule := ⟨.spec fun _ => false, fun _ => 0⟩

theorem february30_never_returns : february30.FindsNext ∧
    ¬ ∃ fuel r, february30.checkSchedule fuel 0 1 = some r := by
  have hnext : february30.FindsNext := ⟨id, monotone_id, fun _ => .inl ⟨rfl, fun _ _ _ => rfl⟩⟩
  refine ⟨hnext, ?_⟩
  rintro ⟨fuel, r, hr⟩
  rw [checkSchedule_eq_none hnext fun hlive => hlive 0 le_rfl (by decide) rfl] at hr
  cases hr

/-! ## The ticks of the scheduler -/

/-- The ticks that report the schedule due, each with the fire time it reports. A tick comes with
whether the loop then moves the anchor : it keeps it where the dispatch fails for a passing reason.
`now + 1` rounds are enough wherever the check returns. -/
def reports (s : Schedule) : ℕ → List (ℕ × Bool) → List (ℕ × ℕ)
  | _, [] => []
  | last, (now, settled) :: ticks =>
    match s.checkSchedule (now + 1) last now with
    | none => []
    | some none => s.reports now ticks
    | some (some t) => (now, t) :: s.reports (if settled then now else last) ticks

/-- Some tick of the loop from `last` reports a fire, and the first that does reports the latest one
not after it, as the fires are counted from `anchor`. -/
def ReportsLatest (s : Schedule) (anchor last : ℕ) (ticks : List (ℕ × Bool)) : Prop :=
  ∃ now t, (s.reports last ticks).head? = some (now, t) ∧ s.Due anchor now t ∧
    ∀ u, s.Due anchor now u → u ≤ t

/-- Of the first two neighbours that are `delay` apart or more, the earlier one. -/
def gapStart (delay : ℕ) : List ℕ → Option ℕ
  | u :: v :: instants => if u + delay ≤ v then some u else gapStart delay (v :: instants)
  | _ => none

/-- A tick comes after a fire, and from the anchor up to it a next fire is always found. For `@every`,
the first pause of at least the delay begins a multiple of the delay after the anchor. -/
def Spaced (s : Schedule) (anchor : ℕ) (ticks : List ℕ) : Prop :=
  match s.expression with
  | .spec _ => ∃ now ∈ ticks, (∃ t, s.Due anchor now t) ∧ s.Live anchor now
  | .every delay _ => ∃ u ∈ gapStart delay (anchor :: ticks), delay ∣ u - anchor

section

variable {anchor : ℕ}

/-- The matches of a cron expression do not depend on the anchor, so it may be moved up to the tick
before a fire. -/
theorem reportsLatest_spec {fires : ℕ → Bool} {next : ℕ → ℕ}
    (hnext : FindsNext ⟨.spec fires, next⟩) : ∀ {ticks : List (ℕ × Bool)} {last : ℕ},
    (last :: ticks.map Prod.fst).Pairwise (· ≤ ·) → anchor ≤ last →
    (∀ t, anchor ≤ t → t < last → next t ≠ 0) → (∀ t, ¬ Due ⟨.spec fires, next⟩ anchor last t) →
    (ReportsLatest ⟨.spec fires, next⟩ anchor last ticks ↔ ∃ now ∈ ticks.map Prod.fst,
      (∃ t, Due ⟨.spec fires, next⟩ anchor now t) ∧ Live ⟨.spec fires, next⟩ anchor now)
  | [], _, _, _, _, _ => by simp [ReportsLatest, reports]
  | (now, settled) :: ticks, last, hsorted, hanchor, hpast, hno => by
    obtain ⟨hlast, hticks⟩ := List.pairwise_cons.1 hsorted
    have hle : last ≤ now := hlast now List.mem_cons_self
    have hdue : ∀ t, Due ⟨.spec fires, next⟩ anchor now t ↔ Due ⟨.spec fires, next⟩ last now t := by
      refine fun t => ⟨fun h => ⟨h.fires, ?_, h.arrived⟩,
        fun h => ⟨h.fires, hanchor.trans_lt h.after, h.arrived⟩⟩
      by_contra hlt
      exact hno t ⟨h.fires, h.after, not_lt.1 hlt⟩
    by_cases hlive : Live ⟨.spec fires, next⟩ last now
    · have hlive' : Live ⟨.spec fires, next⟩ anchor now := fun t ht hnow =>
        (lt_or_ge t last).elim (hpast t ht) fun hlast => hlive t hlast hnow
      rcases checkSchedule_of_live hnext hle hlive with ⟨hc, hnone⟩ | ⟨r, hc, hr, hbest⟩
      · have hrest := reportsLatest_spec hnext hticks (hanchor.trans hle)
          (fun t ht hlt => hlive' t ht hlt.le) fun t ht => hnone t ((hdue t).1 ht)
        simp only [ReportsLatest, reports, hc] at hrest ⊢
        simp [hrest, hdue, hnone]
      · simp only [ReportsLatest, reports, hc]
        exact iff_of_true ⟨now, r, rfl, (hdue r).2 hr, fun u hu => hbest u ((hdue u).1 hu)⟩
          ⟨now, List.mem_cons_self, ⟨r, (hdue r).2 hr⟩, hlive'⟩
    · refine iff_of_false (by simp [ReportsLatest, reports, checkSchedule_eq_none hnext hlive]) ?_
      rintro ⟨tick, htick, -, h⟩
      refine hlive fun t ht hnow => h t (hanchor.trans ht) (hnow.trans ?_)
      rcases List.mem_cons.1 htick with rfl | htick
      · exact le_rfl
      · exact (List.pairwise_cons.1 hticks).1 tick htick

/-- The latest of the fires that are counted from `last` is one that is counted from `anchor` if the
two are a multiple of the delay apart. -/
theorem due_every_iff {delay : ℕ} {pos : 0 < delay} {next : ℕ → ℕ} (h : anchor ≤ last) {r : ℕ}
    (hr : Due ⟨.every delay pos, next⟩ last now r)
    (hbest : ∀ u, Due ⟨.every delay pos, next⟩ last now u → u ≤ r) :
    (Due ⟨.every delay pos, next⟩ anchor now r ∧
      ∀ u, Due ⟨.every delay pos, next⟩ anchor now u → u ≤ r) ↔ delay ∣ last - anchor := by
  obtain ⟨⟨k, rfl⟩, -, harrived⟩ := hr
  obtain ⟨m, rfl⟩ := Nat.exists_eq_add_of_le h
  have hpos : 0 < (k + 1) * delay := Nat.mul_pos k.succ_pos pos
  have hlate : now < anchor + m + (k + 1) * delay + delay := by
    by_contra hle
    have := hbest (anchor + m + (k + 1) * delay + delay)
      ⟨⟨k + 1, by ring⟩, by omega, not_lt.1 hle⟩
    omega
  rw [Nat.add_sub_cancel_left]
  constructor
  · rintro ⟨⟨⟨j, hj⟩, -⟩, -⟩
    have hm : m + (k + 1) * delay = (j + 1) * delay := by omega
    exact (Nat.dvd_add_left (Nat.dvd_mul_left _ _)).1 (hm ▸ Nat.dvd_mul_left _ _)
  · rintro ⟨i, rfl⟩
    refine ⟨⟨⟨i + k, by ring⟩, by omega, harrived⟩, ?_⟩
    rintro u ⟨⟨j, rfl⟩, -, hu⟩
    have hsum : (i + k + 1) * delay = delay * i + (k + 1) * delay := by ring
    have hlt : (j + 1) * delay < (i + k + 2) * delay := by
      rw [Nat.succ_mul (i + k + 1)]
      omega
    have := Nat.mul_le_mul_right delay (Nat.le_of_lt_succ (Nat.lt_of_mul_lt_mul_right hlt))
    omega

/-- `@every` counts from the anchor that the ticks move. -/
theorem reportsLatest_every {delay : ℕ} {pos : 0 < delay} {next : ℕ → ℕ}
    (hnext : FindsNext ⟨.every delay pos, next⟩) : ∀ {ticks : List (ℕ × Bool)} {last : ℕ},
    (last :: ticks.map Prod.fst).Pairwise (· ≤ ·) → anchor ≤ last →
    (ReportsLatest ⟨.every delay pos, next⟩ anchor last ticks ↔
      ∃ u ∈ gapStart delay (last :: ticks.map Prod.fst), delay ∣ u - anchor)
  | [], _, _, _ => by simp [ReportsLatest, reports, gapStart]
  | (now, settled) :: ticks, last, hsorted, hanchor => by
    obtain ⟨hlast, hticks⟩ := List.pairwise_cons.1 hsorted
    have hle : last ≤ now := hlast now List.mem_cons_self
    have hlive : Live ⟨.every delay pos, next⟩ last now := fun t _ _ => by
      have := hnext t
      omega
    rcases checkSchedule_of_live hnext hle hlive with ⟨hc, hnone⟩ | ⟨r, hc, hr, hbest⟩
    · have hgap : ¬ last + delay ≤ now := fun hgap =>
        hnone (last + delay) ⟨⟨0, by ring⟩, by omega, hgap⟩
      have hrest := reportsLatest_every hnext hticks (hanchor.trans hle)
      simp only [ReportsLatest, reports, hc] at hrest ⊢
      rw [List.map_cons, gapStart, if_neg hgap]
      exact hrest
    · have hgap : last + delay ≤ now := by
        obtain ⟨⟨k, rfl⟩, -, harrived⟩ := hr
        exact (Nat.add_le_add_left (Nat.le_mul_of_pos_left delay k.succ_pos) last).trans harrived
      simp only [ReportsLatest, reports, hc, List.map_cons, gapStart, if_pos hgap]
      simpa using due_every_iff hanchor hr hbest

end

/-- A fire that is due by the last tick is reported by some tick, and as the latest one not after it,
exactly if the ticks are spaced for it. After a report, the same holds from the anchor that the loop
has then. -/
theorem fires_reported_iff (s : Schedule) (hnext : s.FindsNext) {anchor : ℕ}
    {ticks : List (ℕ × Bool)} (h : (anchor :: ticks.map Prod.fst).Pairwise (· ≤ ·)) :
    ((∃ t, s.Due anchor ((anchor :: ticks.map Prod.fst).getLast (by simp)) t) →
      s.ReportsLatest anchor anchor ticks) ↔
    ((∃ t, s.Due anchor ((anchor :: ticks.map Prod.fst).getLast (by simp)) t) →
      s.Spaced anchor (ticks.map Prod.fst)) := by
  obtain ⟨expression, next⟩ := s
  refine imp_congr_right fun _ => ?_
  cases expression with
  | spec fires =>
    exact reportsLatest_spec hnext h le_rfl (fun t ht hlt => absurd hlt ht.not_gt)
      fun t ht => absurd ht.arrived ht.after.not_ge
  | every delay pos => exact reportsLatest_every hnext h le_rfl

theorem every_reported :
    everyMinute.ReportsLatest 0 0 [(90 * second, true), (105 * second, true)] :=
  (fires_reported_iff everyMinute findsNext_everyMinute (by decide)).2
    (fun _ => ⟨0, by decide, by decide⟩) ⟨60 * second, ⟨0, rfl⟩, by decide, by decide⟩

/-- Ticks that come faster than the delay of `@every` : the fire is due and no tick reports it. -/
theorem every_not_reported : everyMinute.FindsNext ∧
    everyMinute.Due 0 (75 * second) (60 * second) ∧
    everyMinute.reports 0 ([15, 30, 45, 60, 75].map fun t => (t * second, true)) = [] :=
  ⟨findsNext_everyMinute, ⟨⟨0, rfl⟩, by decide, by decide⟩, by decide⟩

end Schedule

/-! ## The claims of the replicas -/

/-- The tenant, the name and the fire time, which is the key of `cron_claims`. -/
abbrev Fire := String × String × ℕ

/-- What a replica is about to do with a fire it claimed. -/
inductive Turn where
  | idle
  | dispatch (fire : Fire)
  | release (fire : Fire)
deriving DecidableEq

/-- How a dispatch ends : with a run, because the thread is busy, or with an error that may pass. -/
inductive Dispatched where
  | run | conflict | failed

/-- The calls of the replica `i`. A statement may fail, and one that fails may have taken effect
(`stored`). -/
inductive CronCall where
  | tryClaimCronFire (i : ℕ) (fire : Fire) (stored answered : Bool)
  | dispatchScheduledRun (i : ℕ) (result : Dispatched)
  | releaseCronClaim (i : ℕ) (stored : Bool)

/-- The claims, where each replica stands, and the fires whose dispatch reported a run. -/
structure Schedulers where
  claims : List Fire := []
  turn : ℕ → Turn := fun _ => .idle
  runs : List Fire := []

namespace Schedulers

def goto (s : Schedulers) (i : ℕ) (t : Turn) : Schedulers :=
  { s with turn := fun j => if j = i then t else s.turn j }

def step : CronCall → Schedulers → Schedulers
  | .tryClaimCronFire i fire stored answered, s =>
    if s.turn i = .idle ∧ stored ∧ fire ∉ s.claims then
      let s := { s with claims := fire :: s.claims }
      if answered then s.goto i (.dispatch fire) else s
    else s
  | .dispatchScheduledRun i result, s =>
    match s.turn i, result with
    | .dispatch fire, .run => { s.goto i .idle with runs := fire :: s.runs }
    | .dispatch _, .conflict => s.goto i .idle
    | .dispatch fire, .failed => s.goto i (.release fire)
    | _, _ => s
  | .releaseCronClaim i stored, s =>
    match s.turn i with
    | .release fire =>
      { s.goto i .idle with claims := s.claims.filter fun f => !stored || f ≠ fire }
    | _ => s

/-- A replica that is done with a dispatch that failed leaves the fire to any that is idle. -/
def Claimable (call : CronCall) (s : Schedulers) : Prop := ∀ i stored fire,
  call = .releaseCronClaim i stored → s.turn i = .release fire → ∀ j, (step call s).turn j = .idle →
    (step (.tryClaimCronFire j fire true true) (step call s)).turn j = .dispatch fire

/-- A claim that is given back is deleted. -/
def Released (call : CronCall) (s : Schedulers) : Prop := ∀ i fire,
  call = .releaseCronClaim i false → s.turn i ≠ .release fire

def Holds (s : Schedulers) (i : ℕ) (fire : Fire) : Prop :=
  s.turn i = .dispatch fire ∨ s.turn i = .release fire

/-- A fire that a replica holds is claimed, has no run, and no other replica holds it. -/
structure Sound (s : Schedulers) : Prop where
  held : ∀ i fire, s.Holds i fire → fire ∈ s.claims ∧ fire ∉ s.runs
  alone : ∀ i j fire, s.Holds i fire → s.Holds j fire → i = j
  claimed : ∀ fire ∈ s.runs, fire ∈ s.claims
  once : s.runs.Nodup

theorem Sound.step {s : Schedulers} (h : s.Sound) (call : CronCall) : (step call s).Sound := by
  obtain ⟨held, alone, _, _⟩ := h
  simp only [Holds] at held alone
  cases call <;> simp [Schedulers.step, Schedulers.goto]
  case tryClaimCronFire => split_ifs <;> constructor <;> grind [Holds]
  case dispatchScheduledRun => split <;> constructor <;> grind [Holds]
  case releaseCronClaim => split <;> constructor <;> grind [Holds]

theorem claimable_iff {s : Schedulers} (h : s.Sound) (call : CronCall) :
    Claimable call s ↔ Released call s := by
  constructor
  · rintro hclaim i fire rfl hturn
    have hclaimed := (h.held i fire (.inr hturn)).1
    have hnext := hclaim i false fire rfl hturn i (by simp [step, hturn, goto])
    simp [step, hturn, goto, hclaimed] at hnext
  · rintro hreleased i stored fire rfl hturn j hj
    cases stored with
    | false => exact absurd hturn (hreleased i fire rfl)
    | true =>
      simp only [step, hturn, goto] at hj ⊢
      simp [hj]

/-- Each fire leads to at most one run, and one whose dispatch failed can be claimed again, exactly
if every claim that is given back is deleted. -/
theorem one_run_per_fire_iff (calls : List CronCall) :
    ((∀ fire, (Trace.run step calls {}).runs.count fire ≤ 1) ∧
      Trace.Every step Claimable calls {}) ↔ Trace.Every step Released calls {} := by
  have hstart : ({} : Schedulers).Sound := by constructor <;> simp [Holds]
  have hstep (call s) (hs : Sound s) : (step call s).Sound := hs.step call
  have honce := (Trace.invariant_of_step hstep calls hstart).once
  rw [and_iff_right fun fire => List.nodup_iff_count_le_one.1 honce fire]
  constructor <;> intro hcalls <;>
    refine Trace.every_of_invariant (fun call s _ => hstep call s) ?_ hcalls hstart
  · exact fun call s hcall hs => (claimable_iff hs call).1 hcall
  · exact fun call s hcall hs => (claimable_iff hs call).2 hcall

/-- In every interleaving, a fire that a replica dispatches or gives back is claimed, has no run and
is held by no other replica; and every run is of a claimed fire, which it keeps. -/
theorem schedulers_sound (calls : List CronCall) : (Trace.run step calls {}).Sound :=
  Trace.invariant_of_step (fun call _ h => h.step call) calls (by constructor <;> simp [Holds])

/-- The dispatch fails and the claim stays : no replica gets the fire again. -/
theorem failed_fire_stays_claimed :
    let s := Trace.run step [.tryClaimCronFire 0 ("t", "daily", 60 * Schedule.second) true true,
      .dispatchScheduledRun 0 .failed, .releaseCronClaim 0 false] {}
    s.turn 0 = .idle ∧
      (step (.tryClaimCronFire 0 ("t", "daily", 60 * Schedule.second) true true) s).turn 0 = .idle := by
  decide

end Schedulers

end Runkite.Cron
