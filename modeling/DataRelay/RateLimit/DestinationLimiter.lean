import DataRelay.Lib.Dict
import DataRelay.Lib.TokenBucket

/-! Pacing of datagrams by reservation: every event of a route is given a time to be sent at,
however many senders ask and whatever their clocks say. -/
namespace RateLimit
open TokenBucket

/-- The arguments of `reserve_event`. -/
structure ReserveCall where
  routeId : ℤ
  perSecond : ℚ
  burstSize : ℤ
  now : ℚ
  deriving DecidableEq, Repr

/-- A reservation as `_pacing` keeps it. -/
structure Reservation where
  clock : ℚ
  tokens : ℚ
  rate : ℚ
  burst : ℤ
  deriving DecidableEq, Repr

abbrev Pacing := List (ℤ × Reservation)

/-- `DestinationRateLimiter.reserve_event`: the seconds to wait, and the reservations after. -/
def reserveEvent (pacing : Pacing) (c : ReserveCall) : Except String (ℚ × Pacing) :=
  if c.perSecond ≤ 0 ∨ c.burstSize ≤ 0 then .error "invalid UDP event rate or burst"
  else
    let start : ℚ × ℚ :=
      match Dict.get? c.routeId pacing with
      | none => (c.now, c.burstSize)
      | some previous =>
        -- another rate or burst starts with a full bucket
        if (previous.rate, previous.burst) ≠ (c.perSecond, c.burstSize) then (c.now, c.burstSize)
        else
          let clock := max c.now previous.clock
          (clock, min c.burstSize (previous.tokens + (clock - previous.clock) * c.perSecond))
    let spent : ℚ × ℚ :=
      if 1 ≤ start.2 then (start.1, start.2 - 1)
      else (start.1 + (1 - start.2) / c.perSecond, 0)
    .ok (max 0 (spent.1 - c.now),
      Dict.set c.routeId ⟨spent.1, spent.2, c.perSecond, c.burstSize⟩ pacing)

/-- The calls in the order in which they take the lock, each with its answer. A refused call
reserves nothing. -/
def serve : Pacing → List ReserveCall → List (ReserveCall × Except String ℚ)
  | _, [] => []
  | pacing, c :: calls =>
    match reserveEvent pacing c with
    | .error message => (c, .error message) :: serve pacing calls
    | .ok (wait, next) => (c, .ok wait) :: serve next calls

/-- When the events of a route are to be sent. -/
def sendTimes (route : ℤ) (served : List (ReserveCall × Except String ℚ)) : List ℚ :=
  served.filterMap fun x =>
    match x.2 with
    | .ok wait => if x.1.routeId = route then some (x.1.now + wait) else none
    | .error _ => none

def Reservation.bucket (r : Reservation) : Bucket ℚ := ⟨r.clock, r.tokens⟩

/-- The bucket of a route at one rate and burst. -/
def bucketOf (route : ℤ) (rate : ℚ) (burst : ℤ) (pacing : Pacing) : Option (Bucket ℚ) :=
  (Dict.get? route pacing).bind fun r =>
    if (r.rate, r.burst) ≠ (rate, burst) then none else some r.bucket

/-- The bucket the next send of the route leaves. -/
def nextBucket (rate : ℚ) (burst : ℤ) (now : ℚ) (last : Option (Bucket ℚ)) : Bucket ℚ :=
  spend rate (last.elim (full burst now) (refill rate burst now))

section Steps

variable {pacing : Pacing} {c : ReserveCall} {route : ℤ} {rate : ℚ} {burst : ℤ}

theorem spend_eq (clock tokens : ℚ) :
    (if 1 ≤ tokens then (clock, tokens - 1) else (clock + (1 - tokens) / rate, 0)) =
      ((spend rate ⟨clock, tokens⟩).clock, (spend rate ⟨clock, tokens⟩).tokens) := by
  unfold spend
  split_ifs <;> rfl

/-- A call at a positive rate takes its token from the bucket of its route. -/
theorem reserveEvent_ok (hrate : 0 < c.perSecond) (hburst : 1 ≤ c.burstSize) (pacing : Pacing) :
    ∃ r : Reservation, (r.rate, r.burst) = (c.perSecond, c.burstSize) ∧
      r.bucket = nextBucket c.perSecond c.burstSize c.now
        (bucketOf c.routeId c.perSecond c.burstSize pacing) ∧
      reserveEvent pacing c = .ok (max 0 (r.clock - c.now), Dict.set c.routeId r pacing) := by
  have hvalid : ¬ (c.perSecond ≤ 0 ∨ c.burstSize ≤ 0) := by
    rintro (h | h)
    · exact absurd hrate (not_lt.mpr h)
    · omega
  let b := nextBucket c.perSecond c.burstSize c.now
    (bucketOf c.routeId c.perSecond c.burstSize pacing)
  refine ⟨⟨b.clock, b.tokens, c.perSecond, c.burstSize⟩, rfl, rfl, ?_⟩
  unfold reserveEvent
  rw [if_neg hvalid]
  simp only [spend_eq, b, nextBucket, bucketOf]
  cases Dict.get? c.routeId pacing with
  | none => rfl
  | some previous =>
    simp only [Option.bind_some]
    by_cases hsame : (previous.rate, previous.burst) ≠ (c.perSecond, c.burstSize)
    · rw [if_pos hsame, if_pos hsame]
      rfl
    · rw [if_neg hsame, if_neg hsame]
      rfl

theorem bucketOf_set (r : Reservation) (h : (r.rate, r.burst) = (rate, burst)) :
    bucketOf route rate burst (Dict.set route r pacing) = some r.bucket := by
  rw [bucketOf, Dict.get?_set, if_pos rfl, Option.bind_some, if_neg (not_not.mpr h)]

/-- A call on another route leaves the bucket of this one. -/
theorem bucketOf_other (hne : c.routeId ≠ route) {wait : ℚ} {next : Pacing}
    (h : reserveEvent pacing c = .ok (wait, next)) :
    bucketOf route rate burst next = bucketOf route rate burst pacing := by
  unfold reserveEvent at h
  split_ifs at h
  simp only [Except.ok.injEq, Prod.mk.injEq] at h
  rw [← h.2]
  simp [bucketOf, hne]

end Steps

/-- The sends that follow a bucket, or start with a full one. -/
def Follows (rate : ℚ) (burst : ℤ) (last : Option (Bucket ℚ)) (run : List (Bucket ℚ)) : Prop :=
  match last with
  | none => Run rate burst run
  | some b => List.IsChain (Next rate (burst : ℚ)) (b :: run)

section Runs

variable {route : ℤ} {rate : ℚ} {burst : ℤ}

theorem follows_nil (last : Option (Bucket ℚ)) : Follows rate burst last [] := by
  cases last with
  | none => trivial
  | some b => exact List.isChain_singleton b

/-- The next send of the route goes before those that follow it. -/
theorem follows_cons (hrate : 0 < rate) (hburst : 1 ≤ burst) (now : ℚ) {last : Option (Bucket ℚ)}
    {run : List (Bucket ℚ)} (h : Follows rate burst (some (nextBucket rate burst now last)) run) :
    Follows rate burst last (nextBucket rate burst now last :: run) := by
  have hburst' : (1 : ℚ) ≤ burst := by exact_mod_cast hburst
  cases last with
  | none => exact ⟨left_full hburst', h⟩
  | some b => exact List.isChain_cons_cons.mpr ⟨next_refill hrate hburst' now b, h⟩

theorem now_le_nextBucket (hrate : 0 < rate) (now : ℚ) (last : Option (Bucket ℚ)) :
    now ≤ (nextBucket rate burst now last).clock := by
  cases last with
  | none => exact clock_le_spend hrate (full (burst : ℚ) now)
  | some b => exact now_le_spend_refill hrate now b

/-- The calls of a route make a run of sends, each no earlier than it was asked for. -/
theorem serve_follows (hrate : 0 < rate) (hburst : 1 ≤ burst) (pacing : Pacing)
    (calls : List ReserveCall)
    (hfixed : ∀ c ∈ calls, c.routeId = route → c.perSecond = rate ∧ c.burstSize = burst) :
    ∃ run, Follows rate burst (bucketOf route rate burst pacing) run ∧
      sendTimes route (serve pacing calls) = run.map (·.clock) ∧
      ∀ x ∈ serve pacing calls, x.1.routeId = route → ∃ wait, x.2 = .ok wait ∧ 0 ≤ wait := by
  induction calls generalizing pacing with
  | nil => exact ⟨[], follows_nil _, rfl, by simp [serve]⟩
  | cons c calls ih =>
    have hrest := fun next => ih next fun d hd => hfixed d (List.mem_cons_of_mem c hd)
    by_cases hroute : c.routeId = route
    · obtain ⟨hper, hsize⟩ := hfixed c List.mem_cons_self hroute
      obtain ⟨r, hconf, hbucket, hok⟩ := reserveEvent_ok (c := c) (by rwa [hper]) (by rwa [hsize])
        pacing
      rw [hper, hsize] at hconf hbucket
      rw [hroute] at hbucket hok
      obtain ⟨run, hrun, htimes, hwaits⟩ := hrest (Dict.set route r pacing)
      rw [bucketOf_set r hconf, hbucket] at hrun
      have hlate : c.now ≤ r.clock := by
        have hnext : c.now ≤ (nextBucket rate burst c.now (bucketOf route rate burst pacing)).clock :=
          now_le_nextBucket hrate c.now _
        rwa [← hbucket] at hnext
      have hwait : max 0 (r.clock - c.now) = r.clock - c.now := max_eq_right (by linarith)
      have hserve : serve pacing (c :: calls) =
          (c, .ok (r.clock - c.now)) :: serve (Dict.set route r pacing) calls := by
        simp only [serve, hok, hwait]
      refine ⟨_, follows_cons hrate hburst c.now hrun, ?_, ?_⟩
      · rw [hserve, List.map_cons, ← htimes, ← hbucket]
        have htime : c.now + (r.clock - c.now) = r.bucket.clock := by
          show c.now + (r.clock - c.now) = r.clock
          ring
        simp only [sendTimes, List.filterMap_cons, hroute, ↓reduceIte, htime]
      · intro x hx hxroute
        rw [hserve] at hx
        rcases List.mem_cons.mp hx with rfl | hx
        · exact ⟨r.clock - c.now, rfl, by linarith⟩
        · exact hwaits x hx hxroute
    · cases hres : reserveEvent pacing c with
      | error message =>
        have hserve : serve pacing (c :: calls) = (c, .error message) :: serve pacing calls := by
          simp only [serve, hres]
        obtain ⟨run, hrun, htimes, hwaits⟩ := hrest pacing
        refine ⟨run, hrun, ?_, ?_⟩
        · rw [hserve, ← htimes]
          simp only [sendTimes, List.filterMap_cons]
        · intro x hx hxroute
          rw [hserve] at hx
          rcases List.mem_cons.mp hx with rfl | hx
          · exact absurd hxroute hroute
          · exact hwaits x hx hxroute
      | ok reserved =>
        obtain ⟨wait, next⟩ := reserved
        have hserve : serve pacing (c :: calls) = (c, .ok wait) :: serve next calls := by
          simp only [serve, hres]
        obtain ⟨run, hrun, htimes, hwaits⟩ := hrest next
        rw [bucketOf_other hroute hres] at hrun
        refine ⟨run, hrun, ?_, ?_⟩
        · rw [hserve, ← htimes]
          simp only [sendTimes, List.filterMap_cons, hroute, ↓reduceIte]
        · intro x hx hxroute
          rw [hserve] at hx
          rcases List.mem_cons.mp hx with rfl | hx
          · exact absurd hxroute hroute
          · exact hwaits x hx hxroute

/-- The calls of a route at one rate and burst, from a limiter that holds no reservation under
them: whatever the clocks of the callers and the calls of other routes between, every call gets
a wait, and the times of the sends keep to the rate and the burst. -/
theorem pacing_conforms (pacing : Pacing) (calls : List ReserveCall) (route : ℤ) (rate : ℚ)
    (burst : ℤ) (hrate : 0 < rate) (hburst : 1 ≤ burst)
    (hstart : ∀ r, Dict.get? route pacing = some r → (r.rate, r.burst) ≠ (rate, burst))
    (hfixed : ∀ c ∈ calls, c.routeId = route → c.perSecond = rate ∧ c.burstSize = burst) :
    (∀ x ∈ serve pacing calls, x.1.routeId = route → ∃ wait, x.2 = .ok wait ∧ 0 ≤ wait) ∧
      (sendTimes route (serve pacing calls)).Pairwise (· ≤ ·) ∧
      ∀ s t, s ≤ t →
        (((sendTimes route (serve pacing calls)).filter fun x => s ≤ x ∧ x ≤ t).length : ℚ) ≤
          burst + rate * (t - s) := by
  obtain ⟨run, hrun, htimes, hwaits⟩ := serve_follows hrate hburst pacing calls hfixed
  have hnone : bucketOf route rate burst pacing = none := by
    unfold bucketOf
    cases hget : Dict.get? route pacing with
    | none => rfl
    | some r => exact if_pos (hstart r hget)
  rw [hnone] at hrun
  have hconforms := Run.conforms hrate (by exact_mod_cast (zero_le_one.trans hburst)) hrun
  rw [← htimes] at hconforms
  refine ⟨hwaits, hconforms.ordered, fun s t hst => ?_⟩
  have hbound := hconforms.bounded s t hst
  rwa [sendsWithin, List.countP_eq_length_filter] at hbound

end Runs

/-- Two senders of a route at one event a second, the second with an older clock. -/
def twoSenders : List ReserveCall := [⟨7, 1, 1, 10⟩, ⟨7, 1, 1, 9⟩]

theorem twoSenders_conform :
    (∀ x ∈ serve [] twoSenders, x.1.routeId = 7 → ∃ wait, x.2 = .ok wait ∧ 0 ≤ wait) ∧
      (sendTimes 7 (serve [] twoSenders)).Pairwise (· ≤ ·) ∧
      ∀ s t, s ≤ t →
        (((sendTimes 7 (serve [] twoSenders)).filter fun x => s ≤ x ∧ x ≤ t).length : ℚ) ≤
          (1 : ℤ) + 1 * (t - s) :=
  pacing_conforms [] twoSenders 7 1 1 (by decide) (by decide) (by simp) (by decide)

end RateLimit
