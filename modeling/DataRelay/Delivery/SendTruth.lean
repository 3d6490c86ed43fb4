import DataRelay.Delivery.SendRoute

/-! What a route delivery reports against what its sends did. Each helper of the failure
path gets one case lemma; the reported flags are then read off the inputs. -/
namespace Delivery

/-- The payload is no dedup-registry row. -/
def PlainLog (payload : LogPayload) : Prop :=
  Dict.get? "stage" payload ≠ some (.str "dedup_registry")

theorem plainLog_cons {stage : String} (h : stage ≠ "dedup_registry") (rest : LogPayload) :
    PlainLog (("stage", .str stage) :: rest) := by
  simpa [PlainLog] using h

namespace SendCall

variable {c : SendCall}

/-- The binding the failover attempt works with, if it gets that far. -/
def secondaryFor (c : SendCall) (error : SendError) : Option FailoverRouteBinding :=
  match c.route.destination.id, c.bindingsInForce with
  | some d, some bindings =>
    if isFailoverEligibleError error then bindings.lookup d else none
  | _, _ => none

/-- The secondary is enabled and not rate limited, so a send to it is made. -/
def SecondaryOpen (c : SendCall) (b : FailoverRouteBinding) : Prop :=
  b.secondaryDestinationEnabled = true ∧ c.world.secondaryLimiterAllows = true

instance (b : FailoverRouteBinding) : Decidable (c.SecondaryOpen b) :=
  inferInstanceAs (Decidable (_ ∧ _))

/-- Failover takes the batch over: a bound, open secondary whose send returns. -/
def SecondaryAccepts (c : SendCall) (error : SendError) : Prop :=
  ∃ b, c.secondaryFor error = some b ∧ c.SecondaryOpen b ∧ c.world.secondary.error = none

/-- `RETRY_AND_BACKOFF` gets the batch through: one of its resends returns. -/
def Recovers (c : SendCall) : Prop :=
  c.route.failurePolicy = .retryAndBackoff ∧ c.routeEvents ≠ [] ∧
    ∃ i < c.route.retryCount.toNat, (c.world.resend i).error = none

/-- Some send of the whole batch returned. -/
def Delivered (c : SendCall) (es : List Effect) : Prop :=
  ∃ a ∈ attempts es, a.events = c.routeEvents ∧ a.returned = true

theorem delivered_append {es fs : List Effect} :
    c.Delivered (es ++ fs) ↔ c.Delivered es ∨ c.Delivered fs := by
  simp only [Delivered, attempts_append, List.mem_append, or_and_right, exists_or]

@[simp] theorem not_delivered_nil : ¬ c.Delivered [] := by simp [Delivered]

@[simp] theorem delivered_log {p : LogPayload} {es : List Effect} :
    c.Delivered (.log p :: es) ↔ c.Delivered es := by
  simp [Delivered]

@[simp] theorem delivered_send {t : SendTarget} {d : Option ℤ} {r : Bool} {es : List Effect} :
    c.Delivered (.send ⟨t, d, c.routeEvents, r⟩ :: es) ↔ r = true ∨ c.Delivered es := by
  simp [Delivered]

/-- The four ways `_attempt_failover_send` ends. -/
inductive FailoverCase (c : SendCall) (error : SendError) :
    FailoverAttemptResult × List Effect → Prop where
  | notAttempted (hb : c.secondaryFor error = none) : FailoverCase c error ({}, [])
  | closed {b : FailoverRouteBinding} {p : LogPayload} (hp : PlainLog p)
      (hb : c.secondaryFor error = some b) (ho : ¬ c.SecondaryOpen b) :
      FailoverCase c error ({ attempted := true }, [.log p])
  | accepted {b : FailoverRouteBinding} {p q : LogPayload} (hp : PlainLog p) (hq : PlainLog q)
      (hb : c.secondaryFor error = some b) (ho : c.SecondaryOpen b)
      (hs : c.world.secondary.error = none) :
      FailoverCase c error
        ({ attempted := true, succeeded := true, secondarySendAttempted := true },
          [.log p, .send ⟨.secondary, some b.secondaryDestinationId, c.routeEvents, true⟩,
            .log q])
  | failed {b : FailoverRouteBinding} {p q : LogPayload} {e : SendError} (hp : PlainLog p)
      (hq : PlainLog q) (hb : c.secondaryFor error = some b) (ho : c.SecondaryOpen b)
      (hs : c.world.secondary.error = some e) :
      FailoverCase c error
        ({ attempted := true, secondarySendAttempted := true, secondaryError := some e },
          [.log p, .send ⟨.secondary, some b.secondaryDestinationId, c.routeEvents, false⟩,
            .log q])

theorem failover_cases (c : SendCall) (error : SendError) :
    FailoverCase c error (c.failover error) := by
  cases hd : c.route.destination.id with
  | none =>
    have hf : c.failover error = ({}, []) := by simp [failover, hd]
    rw [hf]
    exact .notAttempted (by simp [secondaryFor, hd])
  | some d =>
    have hin : c.bindingsInForce =
        some (c.failoverBindings.getD (c.world.loadedBindings.getD [])) := by
      simp [bindingsInForce, hd]
    have hb : c.secondaryFor error = if isFailoverEligibleError error then
        (c.failoverBindings.getD (c.world.loadedBindings.getD [])).lookup d else none := by
      simp [secondaryFor, hd, hin]
    rw [failover, hd, hin]
    simp only [attemptFailoverSend]
    by_cases he : isFailoverEligibleError error = true
    · rw [if_pos he] at hb
      simp only [he, Bool.not_true, Bool.false_eq_true, ↓reduceIte]
      split
      · next hl => exact .notAttempted (hb.trans hl)
      · next b hl =>
        have hb := hb.trans hl
        by_cases hen : b.secondaryDestinationEnabled = true
        · by_cases hlim : c.world.secondaryLimiterAllows = true
          · simp only [hen, hlim, Bool.not_true, Bool.false_eq_true, ↓reduceIte]
            split
            · next hs =>
              exact .accepted (plainLog_cons (by decide) _) (plainLog_cons (by decide) _) hb
                ⟨hen, hlim⟩ hs
            · next e hs =>
              exact .failed (plainLog_cons (by decide) _) (plainLog_cons (by decide) _) hb
                ⟨hen, hlim⟩ hs
          · simp only [hen, hlim, Bool.not_true, Bool.not_false, Bool.false_eq_true, ↓reduceIte]
            exact .closed (plainLog_cons (by decide) _) hb fun h => hlim h.2
        · simp only [hen, Bool.not_false, ↓reduceIte]
          exact .closed (plainLog_cons (by decide) _) hb fun h => hen h.1
    · rw [if_neg he] at hb
      simp only [he, Bool.not_false, ↓reduceIte]
      exact .notAttempted hb

/-- The loop answers whether one of its sends returned, and its trace shows it. -/
theorem retryLoop_spec (c : SendCall) (n idx : ℕ) (lastExc : Option SendError) :
    ((c.retryLoop n idx lastExc).1.1 = true ↔
        ∃ i < n, (c.world.resend (idx + i)).error = none) ∧
      (c.Delivered (c.retryLoop n idx lastExc).2 ↔
        (c.retryLoop n idx lastExc).1.1 = true) := by
  induction n generalizing idx lastExc with
  | zero => simp [retryLoop]
  | succ n ih =>
    cases he : (c.world.resend idx).error with
    | none =>
      simp only [retryLoop, he, delivered_send, true_or, true_iff, and_true]
      exact ⟨0, Nat.succ_pos n, by simpa using he⟩
    | some e =>
      obtain ⟨hloop, htrace⟩ := ih (idx + 1) (some e)
      simp only [retryLoop, he, delivered_send, Bool.false_eq_true, false_or]
      refine ⟨hloop.trans ⟨?_, ?_⟩, htrace⟩
      · rintro ⟨i, hi, hr⟩
        exact ⟨i + 1, by omega, by rw [← hr]; congr 2; omega⟩
      · rintro ⟨i, hi, hr⟩
        cases i with
        | zero => simp [he] at hr
        | succ i => exact ⟨i, by omega, by rw [← hr]; congr 2; omega⟩

/-- Replay recording sends nothing. -/
theorem not_delivered_maybeRecord (c : SendCall) (d : ℤ) (t : String)
    (p : MessagePrefixContext) (k : DeliveryKind) (e : Option SendError) (f : Option ℤ)
    (stored : Bool) : ¬ c.Delivered (c.maybeRecordReplayEvent d t p k e f stored) := by
  have hrow (row : Option StreamReplayEvent) :
      ¬ c.Delivered (row.map Effect.recordReplay).toList := by
    cases row <;> simp [Delivered]
  unfold maybeRecordReplayEvent
  split
  · exact not_delivered_nil
  split
  · exact not_delivered_nil
  split
  · exact not_delivered_nil
  split
  · exact not_delivered_nil
  · exact hrow _

theorem not_delivered_recordFailure (c : SendCall) (fo : FailoverAttemptResult)
    (error : SendError) : ¬ c.Delivered (c.recordFailure fo error) := by
  unfold recordFailure
  split
  · split
    · exact not_delivered_nil
    · split
      · apply not_delivered_maybeRecord
      · split_ifs
        · apply not_delivered_maybeRecord
        · exact not_delivered_nil
  · exact not_delivered_nil

/-- The failure policy sends the batch exactly when its retries recover it. -/
theorem applyFailurePolicy_delivered (c : SendCall) :
    c.Delivered c.applyFailurePolicy.2 ↔ c.Recovers := by
  unfold applyFailurePolicy Recovers
  cases hp : c.route.failurePolicy with
  | retryAndBackoff =>
    by_cases hev : c.routeEvents = []
    · simp [hev]
    · obtain ⟨hloop, htrace⟩ := c.retryLoop_spec c.route.retryCount.toNat 0 none
      simp only [Nat.zero_add] at hloop
      simp only [List.isEmpty_iff, hev, ↓reduceIte, ne_eq, not_false_eq_true, true_and]
      rw [← hloop, ← htrace]
      split
      · next heq => rw [heq]
      · next lastExc es heq =>
        rw [delivered_append, delivered_append, heq, or_iff_left, or_iff_left (by simp)]
        split
        · apply not_delivered_maybeRecord
        · exact not_delivered_nil
  | _ => simp [Delivered]

/-- The policy answers true when it absorbs the failure or its retries recover the batch. -/
theorem applyFailurePolicy_recovered (c : SendCall) :
    c.applyFailurePolicy.1 = true ↔
      c.route.failurePolicy = .logAndContinue ∨ c.Recovers := by
  unfold applyFailurePolicy Recovers
  cases hp : c.route.failurePolicy with
  | retryAndBackoff =>
    by_cases hev : c.routeEvents = []
    · simp [hev]
    · obtain ⟨hloop, -⟩ := c.retryLoop_spec c.route.retryCount.toNat 0 none
      simp only [Nat.zero_add] at hloop
      simp only [List.isEmpty_iff, hev, ↓reduceIte, ne_eq, not_false_eq_true, true_and,
        reduceCtorEq, false_or]
      rw [← hloop]
      split
      · next heq => rw [heq]
      · next heq => rw [heq]
  | _ => simp

/-- The primary send is made: the destination is enabled and within its rate limit. -/
def Admitted (c : SendCall) : Prop :=
  c.route.destination.enabled = true ∧ c.world.limiterAllows = true

instance : Decidable c.Admitted := inferInstanceAs (Decidable (_ ∧ _))

theorem sendRouteEvents_not_admitted (h : ¬ c.Admitted) :
    c.sendRouteEvents.1.success = false ∧ c.sendRouteEvents.1.failureAbsorbed = false ∧
      ¬ c.Delivered c.sendRouteEvents.2 := by
  unfold sendRouteEvents
  by_cases hen : c.route.destination.enabled = true
  · have hlim : c.world.limiterAllows = false := by
      simpa [Admitted, hen] using h
    simp [hen, hlim, Delivered]
  · simp [hen]

theorem sendRouteEvents_primary (h : c.Admitted) (hp : c.world.primary.error = none) :
    c.sendRouteEvents.1.success = true ∧ c.sendRouteEvents.1.failureAbsorbed = false ∧
      c.Delivered c.sendRouteEvents.2 := by
  simp [sendRouteEvents, h.1, h.2, hp]

theorem sendRouteEvents_failed {error : SendError} (h : c.Admitted)
    (hp : c.world.primary.error = some error) :
    c.sendRouteEvents = ((c.afterPrimaryFailure error).1,
      .send ⟨.primary, c.route.destination.id, c.routeEvents, false⟩ ::
        (c.afterPrimaryFailure error).2) := by
  simp [sendRouteEvents, h.1, h.2, hp]

/-- The two refusal flags tell the two refusals, and neither goes with a success. -/
theorem sendRouteEvents_refusals (c : SendCall) :
    c.sendRouteEvents.1.destinationDisabled = !c.route.destination.enabled ∧
      c.sendRouteEvents.1.rateLimited =
        (c.route.destination.enabled && !c.world.limiterAllows) ∧
      (c.sendRouteEvents.1.success = true → c.Admitted) := by
  cases hen : c.route.destination.enabled with
  | false => simp [sendRouteEvents, hen]
  | true =>
    cases hlim : c.world.limiterAllows with
    | false => simp [sendRouteEvents, hen, hlim]
    | true =>
      refine ⟨?_, ?_, fun _ => ⟨hen, hlim⟩⟩ <;>
      · simp only [sendRouteEvents, hen, hlim, Bool.not_true, Bool.false_eq_true, ↓reduceIte,
          Bool.and_false]
        split
        · rfl
        · simp only [afterPrimaryFailure, failureOutcome]
          split_ifs <;> rfl

/-- Reported flags and real deliveries after a failed primary send, from the inputs. -/
theorem afterPrimaryFailure_spec (c : SendCall) (error : SendError) :
    ((c.afterPrimaryFailure error).1.success = true ↔
        c.SecondaryAccepts error ∨ (c.secondaryFor error = none ∧ c.Recovers)) ∧
      ((c.afterPrimaryFailure error).1.failureAbsorbed = true ↔
        c.secondaryFor error = none ∧ c.route.failurePolicy = .logAndContinue) ∧
      (c.Delivered (c.afterPrimaryFailure error).2 ↔
        c.SecondaryAccepts error ∨ c.Recovers) := by
  have hrec := c.applyFailurePolicy_recovered
  have hdel := c.applyFailurePolicy_delivered
  have hlog : c.Recovers → c.route.failurePolicy ≠ .logAndContinue := by
    rintro ⟨hp, -, -⟩
    simp [hp]
  have htail (fo : FailoverAttemptResult) := c.not_delivered_recordFailure fo error
  have hcase := c.failover_cases error
  unfold afterPrimaryFailure failureOutcome
  generalize c.failover error = fo at hcase
  cases hcase with
  | notAttempted hb =>
    have hacc : ¬ c.SecondaryAccepts error := by
      rintro ⟨b, hb', -⟩
      simp [hb] at hb'
    simp only [Bool.false_and, Bool.false_eq_true, ↓reduceIte, Bool.and_false, List.nil_append,
      delivered_log, delivered_append, htail, or_false, hdel, hacc, hb, true_and, false_or]
    by_cases hr : c.applyFailurePolicy.1 = true
    · rcases hrec.mp hr with hp | hr'
      · have : ¬ c.Recovers := fun h => hlog h hp
        simp [hr, hp, this]
      · simp [hr, hlog hr', hr']
    · have hn := hrec.not.mp hr
      rw [not_or] at hn
      simp [hr, hn.1, hn.2]
  | closed _ hb ho =>
    have hacc : ¬ c.SecondaryAccepts error := by
      rintro ⟨b, hb', ho', -⟩
      obtain rfl : _ = b := Option.some.inj (hb.symm.trans hb')
      exact ho ho'
    simp [delivered_append, htail, hdel, hacc, hb]
  | accepted _ _ hb ho hs =>
    have hacc : c.SecondaryAccepts error := ⟨_, hb, ho, hs⟩
    simp [hacc, hb]
  | failed _ _ hb ho hs =>
    have hacc : ¬ c.SecondaryAccepts error := by
      rintro ⟨b, -, -, hs'⟩
      simp [hs] at hs'
    simp [delivered_append, htail, hdel, hacc, hb]

/-- The inputs on which a delivery is reported as a success. -/
def Succeeds (c : SendCall) : Prop :=
  c.Admitted ∧ ∀ error, c.world.primary.error = some error →
    c.SecondaryAccepts error ∨ (c.secondaryFor error = none ∧ c.Recovers)

theorem sendRouteEvents_success_iff (c : SendCall) :
    c.sendRouteEvents.1.success = true ↔ c.Succeeds := by
  by_cases hadm : c.Admitted
  · cases hp : c.world.primary.error with
    | none => simp [Succeeds, hadm, hp, (sendRouteEvents_primary hadm hp).1]
    | some error =>
      rw [sendRouteEvents_failed hadm hp, (c.afterPrimaryFailure_spec error).1]
      simp [Succeeds, hadm, hp]
  · simp [Succeeds, hadm, (sendRouteEvents_not_admitted hadm).1]

/-- A resend got the batch through after a failover attempt had failed. -/
def RecoveryDiscarded (c : SendCall) : Prop :=
  c.Admitted ∧ c.Recovers ∧ ∃ error, c.world.primary.error = some error ∧
    c.secondaryFor error ≠ none ∧ ¬ c.SecondaryAccepts error

/-- The outcome reports exactly what the sends did. -/
structure Truthful (c : SendCall) : Prop where
  success_iff : c.sendRouteEvents.1.success = true ↔ c.Delivered c.sendRouteEvents.2
  absorbed : c.sendRouteEvents.1.failureAbsorbed = true →
    ¬ c.Delivered c.sendRouteEvents.2 ∧ c.route.failurePolicy = .logAndContinue

/-- The outcome is true to the sends unless a failed failover attempt overrides a resend. -/
theorem sendRouteEvents_truthful_iff (c : SendCall) :
    c.Truthful ↔ ¬ c.RecoveryDiscarded := by
  by_cases hadm : c.Admitted
  · cases hp : c.world.primary.error with
    | none =>
      obtain ⟨hs, ha, hd⟩ := sendRouteEvents_primary hadm hp
      refine iff_of_true ⟨iff_of_true hs hd, by simp [ha]⟩ ?_
      rintro ⟨-, -, error, he, -⟩
      simp [hp] at he
    | some error =>
      obtain ⟨hs, ha, hd⟩ := c.afterPrimaryFailure_spec error
      have hdisc : c.RecoveryDiscarded ↔
          c.Recovers ∧ c.secondaryFor error ≠ none ∧ ¬ c.SecondaryAccepts error := by
        simp [RecoveryDiscarded, hadm, hp]
      have hfail := sendRouteEvents_failed hadm hp
      rw [hdisc]
      constructor
      · rintro ⟨hsucc, -⟩ ⟨hr, hb, hacc⟩
        rw [hfail, delivered_send, hs, hd] at hsucc
        simp [hb, hacc, hr] at hsucc
      · intro hn
        refine ⟨?_, ?_⟩
        · rw [hfail, delivered_send, hs, hd]
          simp only [Bool.false_eq_true, false_or]
          constructor
          · rintro (hacc | ⟨-, hr⟩)
            · exact .inl hacc
            · exact .inr hr
          · rintro (hacc | hr)
            · exact .inl hacc
            · by_cases hacc : c.SecondaryAccepts error
              · exact .inl hacc
              · exact .inr ⟨by_contra fun hb => hn ⟨hr, hb, hacc⟩, hr⟩
        · rw [hfail, delivered_send, ha, hd]
          rintro ⟨hb, hpol⟩
          refine ⟨?_, hpol⟩
          rintro (h | ⟨b, hb', -⟩ | ⟨hp', -⟩)
          · simp at h
          · simp [hb] at hb'
          · simp [hpol] at hp'
  · obtain ⟨hs, ha, hd⟩ := sendRouteEvents_not_admitted hadm
    refine iff_of_true ⟨by simp [hs, hd], by simp [ha]⟩ ?_
    exact fun h => hadm h.1

/-- A webhook answers 503, its standby is disabled and the first resend is accepted. -/
def recoveredAfterFailover : SendCall where
  stream := ⟨1, "alerts"⟩
  route := { id := 10, destination := { id := some 5, destinationType := "WEBHOOK_POST" }
             failurePolicy := .retryAndBackoff }
  routeEvents := [[("event_id", .str "e-1")]]
  failoverBindings := some [(5, ⟨3, 6, "WEBHOOK_POST", "standby", false⟩)]
  world := { primary := ⟨12, some ⟨.destinationSend, "DestinationSendError", some 503, "HTTP 503"⟩⟩ }

theorem recoveredAfterFailover_not_truthful : ¬ recoveredAfterFailover.Truthful := by
  intro h
  have hs : recoveredAfterFailover.sendRouteEvents.1.success = false := by decide
  have hd : recoveredAfterFailover.Delivered recoveredAfterFailover.sendRouteEvents.2 :=
    ⟨⟨.resend 0, some 5, recoveredAfterFailover.routeEvents, true⟩, by decide, rfl, rfl⟩
  have := h.success_iff.mpr hd
  simp [hs] at this

end SendCall
end Delivery
