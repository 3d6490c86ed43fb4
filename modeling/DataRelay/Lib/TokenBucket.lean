import Mathlib.Algebra.Order.Field.Basic
import Mathlib.Tactic

/-! A token bucket over an ordered field: a send costs one token, tokens come back at a fixed
rate and never exceed the burst. How many sends an interval can hold follows from the balance
of tokens, whatever the times at which the sends are asked for. -/
namespace TokenBucket

variable {𝕜 : Type*} [Field 𝕜] [LinearOrder 𝕜] [IsStrictOrderedRing 𝕜]

/-- A bucket as one send leaves it: the time of the send and the tokens that stay. -/
structure Bucket (𝕜 : Type*) where
  clock : 𝕜
  tokens : 𝕜
  deriving DecidableEq, Repr

/-- A full bucket at the given time. -/
def full (burst now : 𝕜) : Bucket 𝕜 := ⟨now, burst⟩

/-- The bucket no earlier than `now`, with the tokens that have come back. -/
def refill (rate burst now : 𝕜) (b : Bucket 𝕜) : Bucket 𝕜 :=
  let clock := max now b.clock
  ⟨clock, min burst (b.tokens + (clock - b.clock) * rate)⟩

/-- Take one token, waiting for the missing part of it. -/
def spend (rate : 𝕜) (b : Bucket 𝕜) : Bucket 𝕜 :=
  if 1 ≤ b.tokens then ⟨b.clock, b.tokens - 1⟩ else ⟨b.clock + (1 - b.tokens) / rate, 0⟩

/-- What a send leaves: there was room for its token under the burst. -/
structure Left (burst : 𝕜) (b : Bucket 𝕜) : Prop where
  nonneg : 0 ≤ b.tokens
  room : b.tokens + 1 ≤ burst

/-- From one send to the next: the tokens left and the one taken were there before or have come
back since. -/
structure Next (rate burst : 𝕜) (b c : Bucket 𝕜) : Prop where
  left : Left burst c
  later : b.clock ≤ c.clock
  paid : c.tokens + 1 ≤ b.tokens + rate * (c.clock - b.clock)

variable {rate burst now : 𝕜} {b c : Bucket 𝕜}

theorem clock_le_spend (hrate : 0 < rate) (b : Bucket 𝕜) : b.clock ≤ (spend rate b).clock := by
  unfold spend
  split_ifs with h
  · exact le_rfl
  · have hwait : 0 ≤ (1 - b.tokens) / rate := div_nonneg (by linarith [not_le.mp h]) hrate.le
    show b.clock ≤ b.clock + (1 - b.tokens) / rate
    linarith

/-- A send takes one token, counting those that come back while it waits. -/
theorem spend_paid (hrate : 0 < rate) (b : Bucket 𝕜) :
    (spend rate b).tokens + 1 = b.tokens + rate * ((spend rate b).clock - b.clock) := by
  unfold spend
  split_ifs with h
  · show b.tokens - 1 + 1 = b.tokens + rate * (b.clock - b.clock)
    ring
  · show (0 : 𝕜) + 1 = b.tokens + rate * (b.clock + (1 - b.tokens) / rate - b.clock)
    have hwait : rate * ((1 - b.tokens) / rate) = 1 - b.tokens := mul_div_cancel₀ _ hrate.ne'
    have hsplit : b.clock + (1 - b.tokens) / rate - b.clock = (1 - b.tokens) / rate := by ring
    rw [hsplit, hwait]
    ring

theorem left_spend (hburst : 1 ≤ burst) (hb : b.tokens ≤ burst) : Left burst (spend rate b) := by
  unfold spend
  split_ifs with h
  · constructor
    · show 0 ≤ b.tokens - 1
      linarith
    · show b.tokens - 1 + 1 ≤ burst
      linarith
  · constructor
    · exact le_rfl
    · show (0 : 𝕜) + 1 ≤ burst
      linarith

theorem left_full (hburst : 1 ≤ burst) : Left burst (spend rate (full burst now)) :=
  left_spend hburst le_rfl

theorem next_refill (hrate : 0 < rate) (hburst : 1 ≤ burst) (now : 𝕜) (b : Bucket 𝕜) :
    Next rate burst b (spend rate (refill rate burst now b)) := by
  have hclock := clock_le_spend hrate (refill rate burst now b)
  have hpaid := spend_paid hrate (refill rate burst now b)
  have htokens : (refill rate burst now b).tokens ≤
      b.tokens + ((refill rate burst now b).clock - b.clock) * rate := min_le_right ..
  refine ⟨left_spend hburst (min_le_left ..), (le_max_right now b.clock).trans hclock, ?_⟩
  rw [hpaid]
  linarith

theorem now_le_spend_refill (hrate : 0 < rate) (now : 𝕜) (b : Bucket 𝕜) :
    now ≤ (spend rate (refill rate burst now b)).clock :=
  (le_max_left now b.clock).trans (clock_le_spend hrate (refill rate burst now b))

/-! ### Runs of sends -/

/-- The buckets a run of sends leaves, one after the other. -/
def Run (rate burst : 𝕜) : List (Bucket 𝕜) → Prop
  | [] => True
  | b :: rest => Left burst b ∧ List.IsChain (Next rate burst) (b :: rest)

/-- How many of the sends fall into an interval. -/
def sendsWithin (s t : 𝕜) (sends : List 𝕜) : ℕ := sends.countP fun x => decide (s ≤ x ∧ x ≤ t)

/-- The sends come in order, and no interval holds more than the burst and what comes back
within it. -/
structure Conforms (rate burst : 𝕜) (sends : List 𝕜) : Prop where
  ordered : sends.Pairwise (· ≤ ·)
  bounded : ∀ s t, s ≤ t → (sendsWithin s t sends : 𝕜) ≤ burst + rate * (t - s)

section Run

variable {rest : List (Bucket 𝕜)} {s t : 𝕜}

omit [IsStrictOrderedRing 𝕜] in
theorem clock_le_of_chain (h : List.IsChain (Next rate burst) (b :: rest)) :
    ∀ c ∈ rest, b.clock ≤ c.clock := by
  induction rest generalizing b with
  | nil => simp
  | cons d rest ih =>
    obtain ⟨hnext, hchain⟩ := List.isChain_cons_cons.mp h
    intro c hc
    rcases List.mem_cons.mp hc with rfl | hc
    · exact hnext.later
    · exact hnext.later.trans (ih hchain c hc)

omit [Field 𝕜] [IsStrictOrderedRing 𝕜] in
theorem sendsWithin_of_lt {sends : List 𝕜} (h : ∀ x ∈ sends, t < x) : sendsWithin s t sends = 0 := by
  rw [sendsWithin, List.countP_eq_zero]
  intro x hx hin
  have hle : x ≤ t := (of_decide_eq_true hin).2
  exact absurd hle (not_le.mpr (h x hx))

/-- After a send, only its tokens and those that come back can be spent. -/
theorem sendsWithin_after (hrate : 0 < rate) (hb : 0 ≤ b.tokens) (hbt : b.clock ≤ t)
    (h : List.IsChain (Next rate burst) (b :: rest)) :
    (sendsWithin s t (rest.map (·.clock)) : 𝕜) ≤ b.tokens + rate * (t - b.clock) := by
  induction rest generalizing b with
  | nil =>
    have hback : 0 ≤ rate * (t - b.clock) := mul_nonneg hrate.le (by linarith)
    have hzero : sendsWithin s t (([] : List (Bucket 𝕜)).map (·.clock)) = 0 := rfl
    rw [hzero, Nat.cast_zero]
    linarith
  | cons c rest ih =>
    obtain ⟨hnext, hchain⟩ := List.isChain_cons_cons.mp h
    by_cases hct : c.clock ≤ t
    · have hrest := ih hnext.left.nonneg hct hchain
      have hcount : sendsWithin s t ((c :: rest).map (·.clock)) ≤
          sendsWithin s t (rest.map (·.clock)) + 1 := by
        rw [List.map_cons, sendsWithin, List.countP_cons]
        split_ifs <;> simp [sendsWithin]
      have hcast : (sendsWithin s t ((c :: rest).map (·.clock)) : 𝕜) ≤
          sendsWithin s t (rest.map (·.clock)) + 1 := by exact_mod_cast hcount
      calc (sendsWithin s t ((c :: rest).map (·.clock)) : 𝕜)
          ≤ sendsWithin s t (rest.map (·.clock)) + 1 := hcast
        _ ≤ c.tokens + 1 + rate * (t - c.clock) := by linarith
        _ ≤ b.tokens + rate * (c.clock - b.clock) + rate * (t - c.clock) := by
            linarith [hnext.paid]
        _ = b.tokens + rate * (t - b.clock) := by ring
    · have hzero : sendsWithin s t ((c :: rest).map (·.clock)) = 0 := by
        apply sendsWithin_of_lt
        intro x hx
        obtain ⟨d, hd, rfl⟩ := List.mem_map.mp hx
        rcases List.mem_cons.mp hd with rfl | hd
        · exact not_le.mp hct
        · exact (not_le.mp hct).trans_le (clock_le_of_chain hchain d hd)
      have hback : 0 ≤ rate * (t - b.clock) := mul_nonneg hrate.le (by linarith)
      rw [hzero, Nat.cast_zero]
      linarith

/-- The sends of a run conform to the rate and the burst. -/
theorem Run.conforms (hrate : 0 < rate) (hburst : 0 ≤ burst) {run : List (Bucket 𝕜)}
    (h : Run rate burst run) : Conforms rate burst (run.map (·.clock)) := by
  induction run with
  | nil =>
    constructor
    · exact List.Pairwise.nil
    · intro s t hst
      have hback : 0 ≤ rate * (t - s) := mul_nonneg hrate.le (by linarith)
      show ((0 : ℕ) : 𝕜) ≤ burst + rate * (t - s)
      rw [Nat.cast_zero]
      linarith
  | cons b rest ih =>
    obtain ⟨hleft, hchain⟩ := h
    have hrest : Conforms rate burst (rest.map (·.clock)) := by
      apply ih
      cases rest with
      | nil => trivial
      | cons c rest =>
        obtain ⟨hnext, hchain⟩ := List.isChain_cons_cons.mp hchain
        exact ⟨hnext.left, hchain⟩
    constructor
    · rw [List.map_cons, List.pairwise_cons]
      refine ⟨?_, hrest.ordered⟩
      intro x hx
      obtain ⟨c, hc, rfl⟩ := List.mem_map.mp hx
      exact clock_le_of_chain hchain c hc
    · intro s t hst
      by_cases hin : s ≤ b.clock ∧ b.clock ≤ t
      · have hafter := sendsWithin_after (s := s) hrate hleft.nonneg hin.2 hchain
        have hcount : sendsWithin s t ((b :: rest).map (·.clock)) =
            sendsWithin s t (rest.map (·.clock)) + 1 := by
          simp [sendsWithin, hin]
        have hback : rate * (t - b.clock) ≤ rate * (t - s) :=
          mul_le_mul_of_nonneg_left (by linarith [hin.1]) hrate.le
        rw [hcount, Nat.cast_add, Nat.cast_one]
        linarith [hleft.room]
      · have hcount : sendsWithin s t ((b :: rest).map (·.clock)) =
            sendsWithin s t (rest.map (·.clock)) := by
          simp [sendsWithin, hin]
        rw [hcount]
        exact hrest.bounded s t hst

end Run

end TokenBucket
