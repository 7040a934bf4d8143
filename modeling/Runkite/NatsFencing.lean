import Mathlib.Data.List.Perm.Basic
import Runkite.NatsQueue

/-!
# Fencing on NATS

What the generations of the NATS queue guarantee, and when. The unconditional put of a dequeue
can come after a later delivery was recorded, the negative ack of a reclaim after a renewal that
it did not see, and the deletion of an ack can lose to a renewal (`nats_not_fenced`). None of
this happens in a run that is `undisturbed` : a delivery is recorded before the next one and
before an ack of the message, and no other write of the entry comes between what a reclaim or
an ack reads and the negative ack or the deletion that follows (`nats_fencing`).
-/

namespace Runkite

/-! ## The condition -/

namespace NatsCall

/-- The delivery that a dequeue received and did not record yet. -/
def held? : NatsCall → Option Reply
  | .check _ job delivery => some ⟨job.runId, delivery⟩
  | .put entry => some entry.reply
  | _ => none

/-- The entry that a `Renew` which returned true wrote. -/
def renewed? : NatsCall → Option LeaseEntry
  | .returned (.renew _ _) entry => entry
  | _ => none

/-- The next request of a call comes before other calls could invalidate what it is based on. -/
def undisturbed (s : NatsServer) : NatsCall → Bool
  | .put entry => (s.stream.lookup entry.job.runId).any fun m =>
      m.delivered = entry.reply.delivery && m.state ≠ .gone
  | .publish (.reclaim _ _ _ _) runId _ rev => s.inflight.isAt runId rev
  | .write (.ack _ _) runId _ rev _ => s.inflight.isAt runId rev
  | _ => true

end NatsCall

def Nats.undisturbed : NatsEvent → Nats → Bool
  | .proceed i _, s => s.calls[i]?.all (NatsCall.undisturbed s.server)
  | _, _ => true

/-- If the step is the negative ack of a reclaim, every `Renew` of that delivery that returned true
recorded a time at least the maximal age ago. -/
def Nats.ReclaimsStale (ev : NatsEvent) (s : Nats) : Prop :=
  ∀ i runId' maxAge cutoff maxRetries keys runId entry rev, ev = .proceed i runId' →
    s.calls[i]? = some (.publish (.reclaim maxAge cutoff maxRetries keys) runId entry rev) →
    (LeaseOp.reclaim maxAge cutoff maxRetries keys).token entry = .nak →
    ∀ c ∈ s.calls, ∀ renewed, c.renewed? = some renewed → renewed.reply = entry.reply →
      renewed.touchedAt + maxAge ≤ s.server.now

/-! ## How the server evolves -/

variable {y : Option Reply} {x : Reply} {touchedAt : ℤ}

namespace NatsServer

variable {s s' s'' : NatsServer} {runId : String} {e e' : LeaseEntry} {rev : ℕ}

/-- The message of the run is acked or terminated. -/
def Gone (s : NatsServer) (runId : String) : Prop :=
  ∃ m, s.stream.lookup runId = some m ∧ m.state = .gone

/-- The delivery took place. -/
def Delivered (s : NatsServer) (x : Reply) : Prop :=
  ∃ m, s.stream.lookup x.runId = some m ∧ x.delivery ≤ m.delivered

/-- An entry that belongs to the run, of a delivery and a time that have been. -/
structure Lease (s : NatsServer) (runId : String) (e : LeaseEntry) : Prop where
  job : e.job.runId = runId
  reply : e.reply.runId = runId
  generation : e.generation = e.reply.delivery
  touched : e.touchedAt ≤ s.now
  delivered : s.Delivered e.reply

/-- No entry was touched later than now. -/
def Touched (s : NatsServer) : Prop :=
  ∀ runId e rev, s.inflight.get? runId = some (e, rev) → e.touchedAt ≤ s.now

/-- What one request, or the passing of time, does to the server. `y` is a delivery that it records
for the first time. -/
structure Evolves (y : Option Reply) (s s' : NatsServer) : Prop where
  now_le : s.now ≤ s'.now
  message : ∀ runId m, s.stream.lookup runId = some m → ∃ m', s'.stream.lookup runId = some m' ∧
    m'.job = m.job ∧ m.delivered ≤ m'.delivered ∧ (m.state = .gone → m'.state = .gone)
  absent : ∀ runId, s.stream.lookup runId = none → s'.stream.lookup runId = none
  saw : ∀ runId e rev, s.inflight.Saw runId e rev → s'.inflight.Saw runId e rev
  entry : ∀ runId e' rev', s'.inflight.get? runId = some (e', rev') →
    (∃ e rev touchedAt, s.inflight.get? runId = some (e, rev) ∧ e.touchedAt ≤ touchedAt ∧
      touchedAt ≤ s'.now ∧ e' = { e with touchedAt := touchedAt }) ∨
    some e'.reply = y ∧ s.Lease runId e' ∧
      ∃ m, s.stream.lookup runId = some m ∧ m.state ≠ .gone ∧ m.delivered = e'.reply.delivery

theorem Delivered.evolves (h : s.Delivered x) (hs : Evolves y s s') : s'.Delivered x := by
  obtain ⟨m, hm, hle⟩ := h
  obtain ⟨m', hm', -, hle', -⟩ := hs.message x.runId m hm
  exact ⟨m', hm', hle.trans hle'⟩

theorem Gone.evolves (h : s.Gone runId) (hs : Evolves y s s') : s'.Gone runId := by
  obtain ⟨m, hm, hgone⟩ := h
  obtain ⟨m', hm', -, -, hgone'⟩ := hs.message runId m hm
  exact ⟨m', hm', hgone' hgone⟩

theorem Lease.evolves (h : s.Lease runId e) (hs : Evolves y s s') : s'.Lease runId e :=
  ⟨h.job, h.reply, h.generation, h.touched.trans hs.now_le, h.delivered.evolves hs⟩

theorem Lease.renew (h : s.Lease runId e) (ht : touchedAt ≤ s.now) :
    s.Lease runId { e with touchedAt := touchedAt } :=
  ⟨h.job, h.reply, h.generation, ht, h.delivered⟩

/-- The entries stay as they are. -/
theorem Evolves.of_inflight_eq (hleases : s.Touched) (hnow : s.now ≤ s'.now)
    (hmessage : ∀ runId m, s.stream.lookup runId = some m →
      ∃ m', s'.stream.lookup runId = some m' ∧ m'.job = m.job ∧ m.delivered ≤ m'.delivered ∧
        (m.state = .gone → m'.state = .gone))
    (habsent : ∀ runId, s.stream.lookup runId = none → s'.stream.lookup runId = none)
    (hinflight : s'.inflight = s.inflight) : Evolves y s s' where
  now_le := hnow
  message := hmessage
  absent := habsent
  saw runId e rev h := hinflight ▸ h
  entry runId e' rev' h := by
    rw [hinflight] at h
    exact .inl ⟨e', rev', e'.touchedAt, h, le_rfl, (hleases runId e' rev' h).trans hnow, rfl⟩

/-- Only the markers or the clock change. -/
theorem Evolves.of_stream_eq (hleases : s.Touched)
    (hnow : s.now ≤ s'.now) (hstream : s'.stream = s.stream) (hinflight : s'.inflight = s.inflight) :
    Evolves y s s' :=
  .of_inflight_eq hleases hnow (fun _ m hm => ⟨m, hstream ▸ hm, rfl, le_rfl, id⟩)
    (fun _ h => hstream ▸ h) hinflight

theorem Evolves.refl (hleases : s.Touched) : Evolves y s s :=
  .of_stream_eq hleases le_rfl rfl rfl

theorem Evolves.of_setMessage {m m' : NatsMessage} (hleases : s.Touched)
    (hm : s.stream.lookup runId = some m) (hjob : m'.job = m.job) (hle : m.delivered ≤ m'.delivered)
    (hgone : m.state = .gone → m'.state = .gone) : Evolves none s (s.setMessage runId m') := by
  refine .of_inflight_eq hleases le_rfl (fun k n hn => ?_) (fun k hnone => ?_) rfl
  · by_cases hk : k = runId
    · subst hk
      cases hm.symm.trans hn
      exact ⟨m', by simp [setMessage], hjob, hle, hgone⟩
    · exact ⟨n, by simpa [setMessage, AList.lookup_insert_ne hk] using hn, rfl, le_rfl, id⟩
  · have hk : k ≠ runId := by
      rintro rfl
      rw [hm] at hnone
      cases hnone
    simpa [setMessage, AList.lookup_insert_ne hk] using hnone

section

variable (hleases : s.Touched)
include hleases

theorem Evolves.publish (token : Token) (reply : Reply) :
    Evolves none s (s.publish token reply) := by
  unfold NatsServer.publish
  split
  · exact .refl hleases
  · rename_i m hm
    exact .of_setMessage hleases hm (by cases token <;> rfl) (by cases token <;> exact le_rfl)
      fun h => by cases token <;> simp [NatsMessage.receive, h]

/-- An entry that a reader saw is deleted. -/
theorem Evolves.of_delete {inflight : Bucket LeaseEntry}
    (hdelete : s.inflight.delete runId rev = some inflight) :
    Evolves none s { s with inflight := inflight } where
  now_le := le_rfl
  message k m hm := ⟨m, hm, rfl, le_rfl, id⟩
  absent k h := h
  saw k e rev h := h.of_delete hdelete
  entry k e' rev' h := by
    rw [Bucket.get?_of_delete hdelete] at h
    split_ifs at h
    exact .inl ⟨e', rev', e'.touchedAt, h, le_rfl, hleases k e' rev' h, rfl⟩

/-- An entry is put, with a later time or for a delivery. -/
theorem Evolves.of_put (hentry : (∃ e₀ rev touchedAt, s.inflight.get? runId = some (e₀, rev) ∧
      e₀.touchedAt ≤ touchedAt ∧ touchedAt ≤ s.now ∧ e = { e₀ with touchedAt := touchedAt }) ∨
    some e.reply = y ∧ s.Lease runId e ∧
      ∃ m, s.stream.lookup runId = some m ∧ m.state ≠ .gone ∧ m.delivered = e.reply.delivery) :
    Evolves y s { s with inflight := s.inflight.put runId e } where
  now_le := le_rfl
  message k m hm := ⟨m, hm, rfl, le_rfl, id⟩
  absent k h := h
  saw k e rev h := h.put
  entry k e' rev' h := by
    rw [Bucket.get?_put] at h
    split_ifs at h with hk
    · obtain ⟨rfl, -⟩ := Prod.mk.inj (Option.some.inj h)
      exact hk ▸ hentry
    · exact .inl ⟨e', rev', e'.touchedAt, h, le_rfl, hleases k e' rev' h, rfl⟩

end

end NatsServer

/-! ## What calls rely on -/

/-- The cutoff of a reclaim is the maximal age ago, or longer. -/
def LeaseOp.Timely (now : ℤ) : LeaseOp → Prop
  | .reclaim maxAge cutoff _ _ => cutoff + maxAge ≤ now
  | _ => True

def LeaseOp.isAck : LeaseOp → Bool
  | .ack _ _ => true
  | _ => false

open NatsServer in
/-- What a call in flight, or one that returned, can rely on. -/
def NatsCall.Sound (s : NatsServer) : NatsCall → Prop
  | .check _ job delivery => s.Delivered ⟨job.runId, delivery⟩
  | .put entry => s.Lease entry.job.runId entry
  | .get op => op.Timely s.now
  | .publish op runId entry rev => op.target = some runId ∧ op.Timely s.now ∧
      s.inflight.Saw runId entry rev ∧ s.Lease runId entry ∧ op.admits entry = true
  | .write op runId entry rev touchedAt => op.target = some runId ∧ op.Timely s.now ∧
      s.inflight.Saw runId entry rev ∧ s.Lease runId entry ∧ entry.touchedAt ≤ touchedAt ∧
      touchedAt ≤ s.now ∧ (op.isAck = true → s.Gone runId)
  | .returned (.ack runId _) (some _) => s.Gone runId ∧ s.inflight.get? runId = none
  | .returned (.renew _ _) (some renewed) => s.Delivered renewed.reply ∧
      ∀ e rev, s.inflight.get? renewed.reply.runId = some (e, rev) → e.reply = renewed.reply →
        renewed.touchedAt ≤ e.touchedAt
  | _ => True

variable {op : LeaseOp}

theorem LeaseOp.Timely.mono {now now' : ℤ} (h : op.Timely now) (hle : now ≤ now') :
    op.Timely now' := by
  cases op with
  | reclaim => exact le_trans h hle
  | _ => trivial

namespace NatsCall

open NatsServer

variable {s s' : NatsServer} {c c' : NatsCall}

/-- What a call relies on stays so when the server evolves, unless the delivery it renewed is
recorded anew. -/
theorem Sound.evolves (h : c.Sound s) (hs : Evolves y s s')
    (hy : ∀ renewed, c.renewed? = some renewed → some renewed.reply ≠ y) : c.Sound s' := by
  unfold Sound at h ⊢
  split at h
  · exact h.evolves hs
  · exact h.evolves hs
  · exact h.mono hs.now_le
  · obtain ⟨htarget, htimely, hsaw, hlease, hadmits⟩ := h
    exact ⟨htarget, htimely.mono hs.now_le, hs.saw _ _ _ hsaw, hlease.evolves hs, hadmits⟩
  · obtain ⟨htarget, htimely, hsaw, hlease, hle, hnow, hgone⟩ := h
    exact ⟨htarget, htimely.mono hs.now_le, hs.saw _ _ _ hsaw, hlease.evolves hs, hle,
      hnow.trans hs.now_le, fun hack => (hgone hack).evolves hs⟩
  · -- no entry of an acked run comes from one that was there, or from a delivery
    obtain ⟨hgone, hnone⟩ := h
    refine ⟨hgone.evolves hs, Option.eq_none_iff_forall_ne_some.2 fun e' he' => ?_⟩
    obtain ⟨e, rev, touchedAt, hget, -⟩ | ⟨-, -, m, hm, hstate, -⟩ := hs.entry _ _ _ he'
    · rw [hnone] at hget
      cases hget
    · obtain ⟨m', hm', hgone'⟩ := hgone
      cases hm.symm.trans hm'
      exact hstate hgone'
  · rename_i renewed
    obtain ⟨hdelivered, htouched⟩ := h
    refine ⟨hdelivered.evolves hs, fun e' rev' he' hreply => ?_⟩
    obtain ⟨e, rev, _, hget, hle, -, rfl⟩ | ⟨hrecorded, -⟩ := hs.entry _ _ _ he'
    · exact (htouched e rev hget hreply).trans hle
    · exact absurd (hreply ▸ hrecorded) (hy renewed rfl)
  · trivial

theorem Sound.delivered_of_held (h : c.Sound s) (hx : c.held? = some x) : s.Delivered x := by
  cases c with
  | check =>
    cases hx
    exact h
  | put =>
    cases hx
    exact h.delivered
  | _ => cases hx

theorem Sound.delivered_of_renewed {r : LeaseEntry} (h : c.Sound s) (hr : c.renewed? = some r) :
    s.Delivered r.reply := by
  cases c with
  | returned op entry =>
    cases op with
    | renew =>
      obtain rfl : entry = some r := hr
      exact h.1
    | _ => cases hr
  | _ => cases hr

theorem sound_pass (h : op.Timely s.now) : op.pass.Sound s := by
  cases op with
  | reclaim => exact h
  | _ => trivial

/-- The delivery that the next request of the call records. -/
def recorded? : NatsCall → Option Reply
  | .put entry => some entry.reply
  | _ => none

theorem held?_of_recorded? (h : c.recorded? = some x) : c.held? = some x := by
  cases c with
  | put => exact h
  | _ => cases h

/-- What a request of a call does : the server evolves, and the call goes on with what it can rely
on. A delivery it holds then is the one it held, or a new one, and an entry it renewed was there. -/
structure Advances (c c' : NatsCall) (s s' : NatsServer) : Prop where
  evolves : Evolves c.recorded? s s'
  sound : c'.Sound s'
  held : c'.held? = none ∨ (c.recorded? = none ∧ c'.held? = c.held?) ∨
    c.held? = none ∧ ∃ x m, c'.held? = some x ∧ s.stream.lookup x.runId = some m ∧
      m.delivered < x.delivery
  renewed : ∀ r, c'.renewed? = some r → c.renewed? = some r ∨
    ∃ e rev, s.inflight.get? r.reply.runId = some (e, rev) ∧ e.reply = r.reply

end NatsCall

/-! ## The invariant -/

open NatsServer NatsCall

namespace Nats

/-- The deliveries that dequeues received and did not record yet. -/
def held (calls : List NatsCall) : List Reply := calls.filterMap NatsCall.held?

/-- The delivery was neither recorded nor renewed. -/
def Fresh (s : Nats) (x : Reply) : Prop :=
  (∀ e rev, s.server.inflight.get? x.runId = some (e, rev) → e.reply ≠ x) ∧
    ∀ c ∈ s.calls, ∀ r, c.renewed? = some r → r.reply ≠ x

structure Sound (s : Nats) : Prop where
  message : ∀ runId m, s.server.stream.lookup runId = some m → m.job.runId = runId
  lease : ∀ runId e rev, s.server.inflight.get? runId = some (e, rev) → s.server.Lease runId e
  call : ∀ c ∈ s.calls, c.Sound s.server
  nodup : (held s.calls).Nodup
  fresh : ∀ x ∈ held s.calls, s.Fresh x

variable {s : Nats} {server : NatsServer} {c c' : NatsCall} {others : List NatsCall}

theorem Sound.touched (hs : s.Sound) : ∀ runId e rev,
    s.server.inflight.get? runId = some (e, rev) → e.touchedAt ≤ s.server.now :=
  fun runId e rev h => (hs.lease runId e rev h).touched

theorem Sound.perm {calls : List NatsCall} (hs : s.Sound) (h : s.calls.Perm calls) :
    Sound ⟨s.server, calls⟩ where
  message := hs.message
  lease := hs.lease
  call c hc := hs.call c (h.mem_iff.2 hc)
  nodup := (h.filterMap _).nodup_iff.1 hs.nodup
  fresh x hx := by
    obtain ⟨hentry, hrenewed⟩ := hs.fresh x ((h.filterMap _).mem_iff.2 hx)
    exact ⟨hentry, fun c hc => hrenewed c (h.mem_iff.2 hc)⟩

theorem message_evolves (hs : s.Sound) (hserver : Evolves y s.server server) :
    ∀ runId m, server.stream.lookup runId = some m → m.job.runId = runId := by
  intro runId m' hm'
  cases hm : s.server.stream.lookup runId with
  | none =>
    rw [hserver.absent runId hm] at hm'
    cases hm'
  | some m =>
    obtain ⟨_, hm'', hjob, -⟩ := hserver.message runId m hm
    cases hm'.symm.trans hm''
    rw [hjob]
    exact hs.message runId m hm

theorem lease_evolves (hs : s.Sound) (hserver : Evolves y s.server server) :
    ∀ runId e rev, server.inflight.get? runId = some (e, rev) → server.Lease runId e := by
  intro runId e' rev' he'
  obtain ⟨e, rev, _, hget, -, hnow, rfl⟩ | ⟨-, hlease, -⟩ := hserver.entry _ _ _ he'
  · exact ((hs.lease runId e rev hget).evolves hserver).renew hnow
  · exact hlease.evolves hserver

/-- A new entry has the reply of an old one, or of the delivery that is recorded. -/
theorem reply_ne_of_evolves (hserver : Evolves y s.server server)
    (hx : ∀ e rev, s.server.inflight.get? x.runId = some (e, rev) → e.reply ≠ x)
    (hy : some x ≠ y) : ∀ e rev, server.inflight.get? x.runId = some (e, rev) → e.reply ≠ x := by
  intro e' rev' he' hreply
  obtain ⟨e, rev, _, hget, -, -, rfl⟩ | ⟨hrecorded, -⟩ := hserver.entry _ _ _ he'
  · exact hx e rev hget hreply
  · exact hy (hreply ▸ hrecorded)

theorem held_cons (c : NatsCall) (others : List NatsCall) :
    held (c :: others) = c.held?.toList ++ held others := by
  unfold held
  rw [List.filterMap_cons]
  cases c.held? <;> rfl

/-- A request of one call keeps the invariant. -/
theorem Sound.advance (hs : Sound ⟨server, c :: others⟩) {server' : NatsServer}
    (h : Advances c c' server server') : Sound ⟨server', c' :: others⟩ := by
  have hheld : ∀ x, c.held? = some x → x ∈ held (c :: others) := by
    intro x hx
    simp [held_cons, hx]
  have hsub : ∀ x ∈ held others, x ∈ held (c :: others) := by
    intro x hx
    simp [held_cons, hx]
  -- a delivery that another call holds is not the one that is recorded
  have hother : ∀ x ∈ held others, some x ≠ c.recorded? := by
    intro x hx hrecorded
    have hnodup := hs.nodup
    rw [held_cons, held?_of_recorded? hrecorded.symm] at hnodup
    exact (List.nodup_cons.1 hnodup).1 hx
  have hrenewed : ∀ d ∈ others, ∀ r, d.renewed? = some r → some r.reply ≠ c.recorded? := by
    intro d hd r hr hrecorded
    have hfresh := (hs.fresh r.reply (hheld _ (held?_of_recorded? hrecorded.symm))).2
    exact hfresh d (List.mem_cons_of_mem c hd) r hr rfl
  have hcalls : ∀ d ∈ c' :: others, d.Sound server' := by
    intro d hd
    obtain rfl | hd := List.mem_cons.1 hd
    · exact h.sound
    · exact (hs.call d (List.mem_cons_of_mem c hd)).evolves h.evolves (hrenewed d hd)
  -- the entries and the renewals of the others, and of the call itself, are not of `x`
  have hfresh : ∀ x, Fresh ⟨server, c :: others⟩ x → some x ≠ c.recorded? →
      Fresh ⟨server', c' :: others⟩ x := by
    intro x ⟨hentry, hrenew⟩ hx
    refine ⟨reply_ne_of_evolves (s := ⟨server, c :: others⟩) h.evolves hentry hx, ?_⟩
    intro d hd r hr
    obtain rfl | hd := List.mem_cons.1 hd
    · obtain hold | ⟨e, rev, hget, hreply⟩ := h.renewed r hr
      · exact hrenew c List.mem_cons_self r hold
      · rintro rfl
        exact hentry e rev hget hreply
    · exact hrenew d (List.mem_cons_of_mem c hd) r hr
  refine ⟨message_evolves (s := ⟨server, c :: others⟩) hs h.evolves,
    lease_evolves (s := ⟨server, c :: others⟩) hs h.evolves, hcalls, ?_, ?_⟩
  all_goals obtain hnone | ⟨hrecorded, hsame⟩ | ⟨hnone, x, m, hx, hm, hlt⟩ := h.held
  · rw [held_cons, hnone]
    have hnodup := hs.nodup
    rw [held_cons] at hnodup
    exact (List.nodup_append.1 hnodup).2.1
  · rw [held_cons, hsame, ← held_cons]
    exact hs.nodup
  · rw [held_cons, hx]
    refine List.nodup_cons.2 ⟨fun hmem => ?_, ?_⟩
    · -- the others hold deliveries that took place
      obtain ⟨d, hd, hdx⟩ := List.mem_filterMap.1 hmem
      obtain ⟨m', hm', hle⟩ := (hs.call d (List.mem_cons_of_mem c hd)).delivered_of_held hdx
      cases hm.symm.trans hm'
      omega
    · have hnodup := hs.nodup
      rw [held_cons, hnone] at hnodup
      exact hnodup
  · intro x hx
    rw [held_cons, hnone] at hx
    exact hfresh x (hs.fresh x (hsub x hx)) (hother x hx)
  · intro x hx
    rw [held_cons, hsame, ← held_cons] at hx
    exact hfresh x (hs.fresh x hx) (by rw [hrecorded]; nofun)
  · intro x' hx'
    rw [held_cons, hx] at hx'
    obtain rfl | hx' := List.mem_cons.1 hx'
    · -- a new delivery is later than what was recorded or renewed
      refine hfresh x' ⟨fun e rev hget hreply => ?_, fun d hd r hr hreply => ?_⟩ ?_
      · obtain ⟨m', hm', hle⟩ := (hs.lease _ e rev hget).delivered
        rw [hreply] at hm' hle
        cases hm.symm.trans hm'
        omega
      · obtain ⟨_, hm', hle⟩ := (hs.call d hd).delivered_of_renewed hr
        rw [hreply] at hm' hle
        cases hm.symm.trans hm'
        omega
      · intro hrecorded
        rw [held?_of_recorded? hrecorded.symm] at hnone
        cases hnone
    · exact hfresh x' (hs.fresh x' (hsub x' hx')) (hother x' hx')

end Nats

namespace NatsCall

variable {s : NatsServer} {c : NatsCall}

/-- A request that leaves the server alone. -/
theorem advances_of_eq {c' : NatsCall} (hleases : s.Touched)
    (hsound : c'.Sound s) (hheld : c'.held? = none ∨ c.recorded? = none ∧ c'.held? = c.held?)
    (hrenewed : c'.renewed? = none ∨ c' = c) : Advances c c' s s where
  evolves := .refl hleases
  sound := hsound
  held := hheld.imp_right .inl
  renewed r hr := by
    obtain hnone | rfl := hrenewed
    · rw [hnone] at hr
      cases hr
    · exact .inl hr

theorem held?_pass (op : LeaseOp) : op.pass.held? = none := by
  cases op <;> rfl

theorem renewed?_pass (op : LeaseOp) : op.pass.renewed? = none := by
  cases op <;> rfl

theorem now_publish (token : Token) (reply : Reply) : (s.publish token reply).now = s.now := by
  unfold NatsServer.publish
  split <;> rfl

theorem gone_publish_ack (h : s.Delivered x) : (s.publish .ack x).Gone x.runId := by
  obtain ⟨m, hm, -⟩ := h
  exact ⟨m.receive s.now .ack, by simp [NatsServer.publish, hm, setMessage], rfl⟩

theorem advances_fetch (kind runId : String)
    (hleases : s.Touched) (hmessage : ∀ runId m, s.stream.lookup runId = some m → m.job.runId = runId) :
    Advances (.fetch kind) ((NatsCall.fetch kind).next runId s).1 s
      ((NatsCall.fetch kind).next runId s).2 := by
  simp only [next, deliver]
  cases hm : s.stream.lookup runId with
  | none => exact advances_of_eq hleases trivial (.inl rfl) (.inl rfl)
  | some m =>
    dsimp only
    split_ifs with havailable
    · obtain rfl := hmessage runId m hm
      have hevolves : Evolves none s (s.setMessage m.job.runId
          { m with delivered := m.delivered + 1, state := .outstanding s.now }) :=
        .of_setMessage hleases hm rfl (Nat.le_succ _) fun h => by simp [havailable.2] at h
      refine ⟨hevolves, ?_, .inr (.inr ⟨rfl, ⟨m.job.runId, m.delivered + 1⟩, m, rfl, hm,
        Nat.lt_succ_self _⟩), fun r hr => by cases hr⟩
      exact ⟨{ m with delivered := m.delivered + 1, state := .outstanding s.now },
        by simp [setMessage], le_rfl⟩
    · exact advances_of_eq hleases trivial (.inl rfl) (.inl rfl)

theorem advances_write {runId : String} {entry : LeaseEntry} {rev : ℕ}
    (hleases : s.Touched) (hsound : (NatsCall.write op runId entry rev touchedAt).Sound s)
    (hundisturbed : undisturbed s (.write op runId entry rev touchedAt)) :
    Advances (.write op runId entry rev touchedAt) (writeEntry op runId entry rev touchedAt s).1 s
      (writeEntry op runId entry rev touchedAt s).2 := by
  obtain ⟨htarget, htimely, hsaw, hlease, hle, hnow, hgone⟩ := hsound
  -- the writes that delete the entry, and go on with `pass`
  have hdelete : writeEntry op runId entry rev touchedAt s =
        (op.pass, (s.inflight.delete runId rev).elim s fun inflight =>
          { s with inflight := inflight }) →
      Advances (.write op runId entry rev touchedAt) (writeEntry op runId entry rev touchedAt s).1 s
        (writeEntry op runId entry rev touchedAt s).2 := by
    intro hwritten
    rw [hwritten]
    cases hwrite : s.inflight.delete runId rev with
    | none =>
      exact advances_of_eq hleases (sound_pass htimely) (.inl (held?_pass op))
        (.inl (renewed?_pass op))
    | some inflight =>
      refine ⟨.of_delete hleases hwrite, sound_pass htimely, .inl (held?_pass op), fun r hr => ?_⟩
      rw [renewed?_pass] at hr
      cases hr
  cases op with
  | ack =>
    obtain ⟨inflight, hwrite⟩ := Bucket.delete_of_isAt (hundisturbed :)
    cases htarget
    have hevolves := Evolves.of_delete hleases hwrite
    simp only [writeEntry, hwrite, LeaseOp.finish]
    refine ⟨hevolves, ⟨(hgone rfl).evolves hevolves, ?_⟩, .inl rfl, fun r hr => by cases hr⟩
    rw [Bucket.get?_of_delete hwrite, if_pos rfl]
  | renew =>
    simp only [writeEntry]
    cases hwrite : s.inflight.update runId { entry with touchedAt := touchedAt } rev with
    | none => exact advances_of_eq hleases trivial (.inl rfl) (.inl rfl)
    | some =>
      obtain ⟨rfl, hat⟩ := Bucket.update_eq_some hwrite
      have hget := hsaw.get?_of_isAt hat
      have hevolves := Evolves.of_put (y := none) hleases (.inl ⟨_, _, _, hget, hle, hnow, rfl⟩)
      refine ⟨hevolves, ⟨hlease.delivered.evolves hevolves, fun e rev' he _ => ?_⟩, .inl rfl, ?_⟩
      · simp only [hlease.reply, Bucket.get?_put, if_true, Option.some.injEq, Prod.mk.injEq] at he
        rw [← he.1]
      · intro r hr
        cases hr
        exact .inr ⟨entry, rev, by rw [hlease.reply]; exact hget, rfl⟩
  | nack | cancel | reclaim =>
    apply hdelete
    simp only [writeEntry]
    cases s.inflight.delete runId rev <;> rfl

/-- Every request that is not disturbed advances its call. -/
theorem advances_next (runId : String)
    (hleases : ∀ runId e rev, s.inflight.get? runId = some (e, rev) → s.Lease runId e)
    (hmessage : ∀ runId m, s.stream.lookup runId = some m → m.job.runId = runId)
    (hsound : c.Sound s) (hundisturbed : undisturbed s c) :
    Advances c (c.next runId s).1 s (c.next runId s).2 := by
  have htouched : s.Touched :=
    fun runId e rev h => (hleases runId e rev h).touched
  cases c with
  | fetch kind => exact advances_fetch kind runId htouched hmessage
  | check =>
    simp only [next]
    split_ifs
    · exact ⟨.publish htouched _ _, trivial, .inl rfl, fun r hr => by cases hr⟩
    · exact advances_of_eq htouched ⟨rfl, rfl, rfl, le_rfl, hsound⟩ (.inr ⟨rfl, rfl⟩)
        (.inl rfl)
  | put entry =>
    simp only [undisturbed] at hundisturbed
    cases hm : s.stream.lookup entry.job.runId with
    | none => simp [hm] at hundisturbed
    | some m =>
      obtain ⟨hdelivered, hstate⟩ : m.delivered = entry.reply.delivery ∧ m.state ≠ .gone := by
        simpa [hm] using hundisturbed
      exact ⟨.of_put htouched (.inr ⟨rfl, hsound, m, hm, hstate, hdelivered⟩), trivial, .inl rfl,
        fun r hr => by cases hr⟩
  | dequeued | failed => exact advances_of_eq htouched trivial (.inl rfl) (.inl rfl)
  | get op =>
    have hpass : Advances (.get op) op.pass s s :=
      advances_of_eq htouched (sound_pass hsound) (.inl (held?_pass op))
        (.inl (renewed?_pass op))
    simp only [next]
    split
    · exact advances_of_eq htouched (by cases op <;> trivial) (.inl rfl)
        (.inl (by cases op <;> rfl))
    rename_i target htarget
    split
    · exact hpass
    rename_i entry rev hget
    split_ifs with hadmits
    · exact advances_of_eq htouched ⟨htarget, hsound, Bucket.saw_of_get? hget,
        hleases target entry rev hget, hadmits⟩ (.inl rfl) (.inl rfl)
    · exact hpass
  | publish op target entry rev =>
    obtain ⟨htarget, htimely, hsaw, hlease, -⟩ := hsound
    have hevolves := Evolves.publish htouched (op.token entry) entry.reply
    have htimely' := htimely.mono hevolves.now_le
    simp only [next]
    split_ifs
    · refine ⟨hevolves, sound_pass htimely', .inl (held?_pass op), fun r hr => ?_⟩
      rw [renewed?_pass] at hr
      cases hr
    · refine ⟨hevolves, ⟨htarget, htimely', hevolves.saw _ _ _ hsaw, hlease.evolves hevolves,
        hlease.touched, (now_publish _ _).ge, fun hack => ?_⟩, .inl rfl, fun r hr => by cases hr⟩
      cases op with
      | ack => exact hlease.reply ▸ gone_publish_ack hlease.delivered
      | _ => cases hack
  | write => exact advances_write htouched hsound hundisturbed
  | mark =>
    exact ⟨.of_stream_eq htouched le_rfl rfl rfl, trivial, .inl rfl, fun r hr => by cases hr⟩
  | returned => exact advances_of_eq htouched hsound (.inl rfl) (.inr rfl)

end NatsCall

/-! ## Steps -/

namespace Nats

variable {s : Nats} {runId : String}

theorem Sound.accept (hs : s.Sound) {c : NatsCall} (hc : c.Sound s.server) (hheld : c.held? = none)
    (hrenewed : c.renewed? = none) : (s.accept c).Sound where
  message := hs.message
  lease := hs.lease
  call d hd := by
    obtain hd | hd := List.mem_append.1 hd
    · exact hs.call d hd
    · obtain rfl := List.mem_singleton.1 hd
      exact hc
  nodup := by
    simpa [Nats.accept, held, List.filterMap_append, List.filterMap_cons, hheld] using hs.nodup
  fresh x hx := by
    have hx' : x ∈ held s.calls := by
      simpa [Nats.accept, held, List.filterMap_append, List.filterMap_cons, hheld] using hx
    obtain ⟨hentry, hrenew⟩ := hs.fresh x hx'
    refine ⟨hentry, fun d hd r hr => ?_⟩
    obtain hd | hd := List.mem_append.1 hd
    · exact hrenew d hd r hr
    · obtain rfl := List.mem_singleton.1 hd
      rw [hrenewed] at hr
      cases hr

/-- The server evolves by itself. -/
theorem Sound.of_evolves (hs : s.Sound) {server : NatsServer} (h : Evolves none s.server server) :
    Sound ⟨server, s.calls⟩ where
  message := message_evolves hs h
  lease := lease_evolves hs h
  call c hc := (hs.call c hc).evolves h fun _ _ => nofun
  nodup := hs.nodup
  fresh x hx := ⟨reply_ne_of_evolves h (hs.fresh x hx).1 nofun, (hs.fresh x hx).2⟩

/-- The call at an index is replaced by what it goes on as. -/
theorem Sound.set (hs : s.Sound) {i : ℕ} {c c' : NatsCall} {server : NatsServer}
    (hi : s.calls[i]? = some c) (h : Advances c c' s.server server) :
    Sound ⟨server, s.calls.set i c'⟩ := by
  obtain ⟨hlt, rfl⟩ := List.getElem?_eq_some_iff.1 hi
  have hfirst := hs.perm (List.getElem_cons_eraseIdx_perm hlt).symm
  exact (hfirst.advance h).perm (List.set_perm_cons_eraseIdx hlt c').symm

theorem expire_evolves (hs : s.Sound) (runId : String) :
    Evolves none s.server (s.server.expire runId) := by
  unfold NatsServer.expire
  split
  · exact .refl hs.touched
  rename_i m hm
  split
  · rename_i since hstate
    split_ifs
    · exact .of_setMessage hs.touched hm rfl le_rfl fun h => by simp [hstate] at h
    · exact .refl hs.touched
  · exact .refl hs.touched

theorem abort_advances {c : NatsCall} (hs : s.Sound) (hc : c.Sound s.server) :
    Advances c c.abort s.server s.server := by
  cases c with
  | dequeued => exact advances_of_eq hs.touched trivial (.inl rfl) (.inr rfl)
  | returned => exact advances_of_eq hs.touched hc (.inl rfl) (.inr rfl)
  | _ => exact advances_of_eq hs.touched trivial (.inl rfl) (.inl rfl)

/-- The server evolves in every undisturbed step, and the invariant is kept. -/
theorem step_sound (ev : NatsEvent) (hev : undisturbed ev s) (hs : s.Sound) :
    (s.step ev).Sound ∧ ∃ y, Evolves y s.server (s.step ev).server := by
  have hsame : ∃ y, Evolves y s.server s.server := ⟨none, .refl hs.touched⟩
  cases ev with
  | dequeue | ack | renew | nack | cancel => exact ⟨hs.accept trivial rfl rfl, hsame⟩
  | reclaimStale =>
    exact ⟨hs.accept (sub_add_cancel _ _).le rfl rfl, hsame⟩
  | proceed i runId =>
    simp only [step]
    cases hi : s.calls[i]? with
    | none => exact ⟨hs, hsame⟩
    | some c =>
      have hc := hs.call c (List.mem_of_getElem? hi)
      have hundisturbed : c.undisturbed s.server := by simpa [undisturbed, hi] using hev
      have hadvances := advances_next runId hs.lease hs.message hc hundisturbed
      exact ⟨hs.set hi hadvances, _, hadvances.evolves⟩
  | abort i =>
    simp only [step]
    cases hi : s.calls[i]? with
    | none => exact ⟨hs, hsame⟩
    | some c => exact ⟨hs.set hi (abort_advances hs (hs.call c (List.mem_of_getElem? hi))), hsame⟩
  | tick d =>
    have hevolves : Evolves none s.server { s.server with now := s.server.now + d } :=
      .of_stream_eq hs.touched (by simp) rfl rfl
    exact ⟨hs.of_evolves hevolves, none, hevolves⟩
  | expire runId =>
    have hevolves := expire_evolves hs runId
    exact ⟨hs.of_evolves hevolves, none, hevolves⟩

theorem sound_start (jobs : List Job) : (start jobs).Sound where
  message := by
    intro runId m hm
    induction jobs with
    | nil => simp [start] at hm
    | cons job jobs ih =>
      simp only [start, List.foldr_cons] at hm ih
      by_cases hk : runId = job.runId
      · subst hk
        rw [AList.lookup_insert] at hm
        cases hm
        rfl
      · rw [AList.lookup_insert_ne hk] at hm
        exact ih hm
  lease := by simp [start, Bucket.empty, Bucket.get?]
  call := by simp [start]
  nodup := by simp [start, held]
  fresh := by simp [start, held]

theorem sound_run {jobs : List Job} {events : List NatsEvent}
    (h : Trace.Every step (fun ev s => undisturbed ev s) events (start jobs)) :
    (Trace.run step events (start jobs)).Sound :=
  Trace.invariant (fun ev s hev (hs : s.Sound) => (step_sound ev hev hs).1) h (sound_start jobs)

/-! ## Results -/

/-- The generations that are tracked from here on are at least `g`. -/
def AtLeast (runId : String) (g : ℤ) (s : Nats) : Prop :=
  (∀ e rev, s.server.inflight.get? runId = some (e, rev) → g ≤ e.generation) ∧
    ∃ m, s.server.stream.lookup runId = some m ∧ g ≤ m.delivered

theorem AtLeast.evolves {g : ℤ} {s' : Nats}
    (h : s.AtLeast runId g) (hs : Evolves y s.server s'.server) : s'.AtLeast runId g := by
  obtain ⟨hentry, m, hm, hle⟩ := h
  refine ⟨fun e' rev' he' => ?_, ?_⟩
  · obtain ⟨e, rev, _, hget, -, -, rfl⟩ | ⟨-, hlease, m', hm', -, hdelivered⟩ :=
      hs.entry _ _ _ he'
    · exact hentry e rev hget
    · cases hm.symm.trans hm'
      rw [hlease.generation, ← hdelivered]
      exact hle
  · obtain ⟨m', hm', -, hle', -⟩ := hs.message runId m hm
    exact ⟨m', hm', hle.trans (by exact_mod_cast hle')⟩

theorem atLeast_of_tracked {g : ℤ} (hs : s.Sound)
    (h : s.tracked runId = some g) : s.AtLeast runId g := by
  obtain ⟨⟨e, rev⟩, hget, rfl⟩ := Option.map_eq_some_iff.1 h
  have hlease := hs.lease runId e rev hget
  refine ⟨fun e' rev' he' => ?_, ?_⟩
  · obtain ⟨rfl, -⟩ := Prod.mk.inj (Option.mem_unique hget he')
    exact le_rfl
  · obtain ⟨m, hm, hle⟩ := hlease.delivered
    rw [hlease.reply] at hm
    refine ⟨m, hm, ?_⟩
    rw [hlease.generation]
    exact_mod_cast hle

/-- A reclaim whose entry is still there came after the renewals of its delivery. -/
theorem reclaimsStale_of_sound (ev : NatsEvent) (hev : undisturbed ev s) (hs : s.Sound) :
    ReclaimsStale ev s := by
  rintro i runId' maxAge cutoff maxRetries keys runId entry rev rfl hi - c hc renewed hrenewed hreply
  have hat : s.server.inflight.isAt runId rev := by
    simpa [undisturbed, hi, NatsCall.undisturbed] using hev
  obtain ⟨-, htimely, hsaw, hlease, hadmits⟩ := hs.call _ (List.mem_of_getElem? hi)
  have hget := hsaw.get?_of_isAt hat
  have htouched : renewed.touchedAt ≤ entry.touchedAt := by
    have hsound := hs.call c hc
    cases c with
    | returned op e =>
      cases op with
      | renew =>
        obtain rfl : e = some renewed := hrenewed
        refine hsound.2 entry rev ?_ hreply.symm
        rw [hreply, hlease.reply]
        exact hget
      | _ => cases hrenewed
    | _ => cases hrenewed
  have hcutoff : entry.touchedAt ≤ cutoff := of_decide_eq_true hadmits
  have hage : cutoff + maxAge ≤ s.server.now := htimely
  omega

/-- A call that returned stays among the calls. -/
theorem returned_mem_step {entry : Option LeaseEntry} (ev : NatsEvent)
    (h : .returned op entry ∈ s.calls) : .returned op entry ∈ (s.step ev).calls := by
  have hset : ∀ i c (f : NatsCall → NatsCall), s.calls[i]? = some c →
      f (.returned op entry) = .returned op entry → .returned op entry ∈ s.calls.set i (f c) := by
    intro i c f hi hf
    obtain ⟨j, hj⟩ := List.mem_iff_getElem?.1 h
    refine List.mem_iff_getElem?.2 ⟨j, ?_⟩
    by_cases hij : i = j
    · subst hij
      cases hi.symm.trans hj
      rw [hf, List.getElem?_set_self (List.getElem?_eq_some_iff.1 hi).1]
    · rw [List.getElem?_set_ne hij, hj]
  cases ev with
  | proceed i runId =>
    simp only [step]
    cases hi : s.calls[i]? with
    | none => exact h
    | some c => exact hset i c (fun c => (c.next runId s.server).1) hi rfl
  | abort i =>
    simp only [step]
    cases hi : s.calls[i]? with
    | none => exact h
    | some c => exact hset i c NatsCall.abort hi rfl
  | tick | expire => exact h
  | _ => exact List.mem_append_left _ h

end Nats

/-- In every undisturbed interleaving of the requests of any number of replicas, redeliveries and
ticks of the clock : the generation tracked for a run is never smaller than one that was tracked
before; the negative ack of a reclaim comes at least the maximal age after the time that a `Renew`
of the delivery which returned true recorded; and after an `Ack` was accepted the run is not found
to be inflight. -/
theorem nats_fencing (jobs : List Job) (events : List NatsEvent)
    (h : Trace.Every Nats.step (fun ev s => Nats.undisturbed ev s = true) events (.start jobs)) :
    (∀ before later runId g g', events = before ++ later →
      (Trace.run Nats.step before (.start jobs)).tracked runId = some g →
      (Trace.run Nats.step events (.start jobs)).tracked runId = some g' → g ≤ g') ∧
    Trace.Every Nats.step Nats.ReclaimsStale events (.start jobs) ∧
    (∀ before later runId generation entry, events = before ++ later →
      .returned (.ack runId generation) (some entry) ∈
        (Trace.run Nats.step before (.start jobs)).calls →
      (Trace.run Nats.step events (.start jobs)).server.lookupInflight runId = none) := by
  refine ⟨?_, ?_, ?_⟩
  · rintro before later runId g g' rfl hbefore hafter
    obtain ⟨hfirst, hlater⟩ := Trace.every_append.1 h
    rw [Trace.run_append] at hafter
    have hstep : ∀ ev (s : Nats), Nats.undisturbed ev s → s.Sound ∧ s.AtLeast runId g →
        (s.step ev).Sound ∧ (s.step ev).AtLeast runId g := by
      intro ev s hev hs
      obtain ⟨hsound, y, hevolves⟩ := Nats.step_sound ev hev hs.1
      exact ⟨hsound, hs.2.evolves hevolves⟩
    have hatLeast := Trace.invariant hstep hlater
      ⟨Nats.sound_run hfirst, Nats.atLeast_of_tracked (Nats.sound_run hfirst) hbefore⟩
    obtain ⟨⟨e, rev⟩, hget, rfl⟩ := Option.map_eq_some_iff.1 hafter
    exact hatLeast.2.1 e rev hget
  · exact Trace.every_of_invariant (fun ev s hev (hs : s.Sound) => (Nats.step_sound ev hev hs).1)
      (fun ev s hev hs => Nats.reclaimsStale_of_sound ev hev hs) h (Nats.sound_start jobs)
  · rintro before later runId generation entry rfl hacked
    have hmem := @Trace.invariant_of_step _ _ Nats.step
      (fun s => .returned (.ack runId generation) (some entry) ∈ s.calls)
      (fun ev s => Nats.returned_mem_step ev) later _ hacked
    rw [← Trace.run_append] at hmem
    obtain ⟨-, hnone⟩ := (Nats.sound_run h).call _ hmem
    rw [NatsServer.lookupInflight, hnone]
    rfl

/-- A run is dequeued, reclaimed when it is stale, dequeued again and acked. -/
def reclaimedAndAcked : List NatsEvent :=
  [.dequeue "k", .proceed 0 "r", .proceed 0 "r", .proceed 0 "r", .tick 100,
    .reclaimStale 50 0 .id, .proceed 1 "r", .proceed 1 "r", .proceed 1 "r",
    .dequeue "k", .proceed 2 "r", .proceed 2 "r", .proceed 2 "r",
    .ack "r" 2, .proceed 3 "r", .proceed 3 "r", .proceed 3 "r"]

theorem nats_fencing_reclaimed :
    Trace.Every Nats.step Nats.ReclaimsStale reclaimedAndAcked (.start [⟨"r", "k", 0, "", "", ""⟩]) ∧
      (Trace.run Nats.step reclaimedAndAcked
        (.start [⟨"r", "k", 0, "", "", ""⟩])).server.lookupInflight "r" = none :=
  have hfenced := (nats_fencing [⟨"r", "k", 0, "", "", ""⟩] reclaimedAndAcked (by decide +kernel)).2
  ⟨hfenced.1, hfenced.2 reclaimedAndAcked [] "r" 2 ⟨⟨"r", 2⟩, 2, 100, ⟨"r", "k", 0, "", "", ""⟩⟩
    (List.append_nil _).symm (by decide +kernel)⟩

/-- A dequeue stalls before it records its delivery, and another gets the next one. -/
def lateRecord : List NatsEvent :=
  [.dequeue "k", .proceed 0 "r", .proceed 0 "r", .tick 30000, .expire "r",
    .dequeue "k", .proceed 1 "r", .proceed 1 "r", .proceed 1 "r"]

/-- A `Renew` comes between what a reclaim reads and its negative ack. -/
def blindReclaim : List NatsEvent :=
  [.dequeue "k", .proceed 0 "r", .proceed 0 "r", .proceed 0 "r", .tick 100,
    .reclaimStale 50 0 .id, .proceed 1 "r",
    .renew "r" 1, .proceed 2 "r", .proceed 2 "r", .proceed 2 "r"]

/-- A `Renew` comes between what an `Ack` reads and its deletion. -/
def lostDeletion : List NatsEvent :=
  [.dequeue "k", .proceed 0 "r", .proceed 0 "r", .proceed 0 "r", .ack "r" 1, .proceed 1 "r",
    .renew "r" 1, .proceed 2 "r", .proceed 2 "r", .proceed 1 "r", .proceed 2 "r", .proceed 1 "r"]

/-- The tracked generation falls from two to one; a delivery is given back at the time it was
renewed; and a run is still found to be inflight after its `Ack` was accepted. -/
theorem nats_not_fenced :
    let s₀ := Nats.start [⟨"r", "k", 0, "", "", ""⟩]
    (Trace.run Nats.step lateRecord s₀).tracked "r" = some 2 ∧
    (Trace.run Nats.step (lateRecord ++ [.proceed 0 "r"]) s₀).tracked "r" = some 1 ∧
    ¬ Trace.Every Nats.step Nats.ReclaimsStale (blindReclaim ++ [.proceed 1 "r"]) s₀ ∧
    .returned (.ack "r" 1) (some ⟨⟨"r", 1⟩, 1, 0, ⟨"r", "k", 0, "", "", ""⟩⟩) ∈
      (Trace.run Nats.step lostDeletion s₀).calls ∧
    ((Trace.run Nats.step lostDeletion s₀).server.lookupInflight "r").isSome := by
  refine ⟨by decide +kernel, by decide +kernel, fun h => ?_, by decide +kernel, by decide +kernel⟩
  obtain ⟨hlast, -⟩ := (Trace.every_append.1 h).2
  have hage := hlast 1 "r" 50 50 0 ["r"] "r" ⟨⟨"r", 1⟩, 1, 0, ⟨"r", "k", 0, "", "", ""⟩⟩ 0 rfl
    (by decide +kernel) (by decide)
    (.returned (.renew "r" 1) (some ⟨⟨"r", 1⟩, 1, 100, ⟨"r", "k", 0, "", "", ""⟩⟩))
    (by decide +kernel) ⟨⟨"r", 1⟩, 1, 100, ⟨"r", "k", 0, "", "", ""⟩⟩ rfl rfl
  revert hage
  decide +kernel

end Runkite
