import DataRelay.Delivery.SendTruth

/-! The effects one route delivery can have, for what runs are built from it. -/
namespace Delivery
namespace SendCall

/-- The inputs on which a delivery records its batch: the route's own destination takes
it, at once or in a resend. -/
def RecordsKeys (c : SendCall) : Prop :=
  c.Admitted ∧ ∀ error, c.world.primary.error = some error →
    ¬ c.SecondaryAccepts error ∧ c.Recovers

/-- The effects a route delivery can have: its sends carry its own batch to its own
destinations, only its own batch is recorded in the registry, and it writes no registry row
of its own accord. -/
def OwnEffect (c : SendCall) (records : Prop) : Effect → Prop
  | .send a => a.events = c.routeEvents ∧ ∀ id, a.target ≠ .dynamicRoute id
  | .recordRegistry record => record = c.registryRecord ∧ records
  | .log payload => PlainLog payload
  | _ => True

variable (c : SendCall)

theorem maybeRecord_ownEffect (records : Prop) (d : ℤ) (t : String) (p : MessagePrefixContext)
    (k : DeliveryKind) (e : Option SendError) (f : Option ℤ) (stored : Bool) :
    ∀ x ∈ c.maybeRecordReplayEvent d t p k e f stored, c.OwnEffect records x := by
  have hrow (row : Option StreamReplayEvent) :
      ∀ x ∈ (row.map Effect.recordReplay).toList, c.OwnEffect records x := by
    cases row <;> simp [OwnEffect]
  unfold maybeRecordReplayEvent
  split
  · simp
  split
  · simp
  split
  · simp
  split
  · simp
  · exact hrow _

/-- The loop records the batch only when one of its sends returns. -/
theorem retryLoop_ownEffect (n idx : ℕ) (lastExc : Option SendError) :
    ∀ x ∈ (c.retryLoop n idx lastExc).2,
      c.OwnEffect ((c.retryLoop n idx lastExc).1.1 = true) x := by
  induction n generalizing idx lastExc with
  | zero => simp [retryLoop]
  | succ n ih =>
    cases he : (c.world.resend idx).error with
    | none =>
      have hlog (l : ℕ) : PlainLog (c.logRetrySuccess idx l) := plainLog_cons (by decide) _
      simp [retryLoop, he, OwnEffect, hlog]
    | some e => simpa [retryLoop, he, OwnEffect] using ih (idx + 1) (some e)

theorem OwnEffect.mono {c : SendCall} {p q : Prop} (h : p → q) {x : Effect}
    (hx : c.OwnEffect p x) : c.OwnEffect q x := by
  cases x with
  | recordRegistry record => exact ⟨hx.1, h hx.2⟩
  | send a => exact hx
  | log payload => exact hx
  | _ => trivial

theorem applyFailurePolicy_ownEffect :
    ∀ x ∈ c.applyFailurePolicy.2, c.OwnEffect c.Recovers x := by
  have hrec := c.applyFailurePolicy_recovered
  unfold applyFailurePolicy at hrec ⊢
  cases hp : c.route.failurePolicy with
  | retryAndBackoff =>
    have hloop := c.retryLoop_ownEffect c.route.retryCount.toNat 0 none
    simp only [hp, reduceCtorEq, false_or] at hrec
    simp only
    split
    · simp
    · next hev =>
      rw [if_neg hev] at hrec
      split
      · next heq =>
        rw [heq] at hloop hrec
        exact fun x hx => (hloop x hx).mono fun _ => hrec.mp rfl
      · next lastExc es heq =>
        rw [heq] at hloop
        simp only [List.forall_mem_append, List.forall_mem_singleton]
        refine ⟨⟨fun x hx => (hloop x hx).mono (by simp), ?_⟩, ?_⟩
        · exact plainLog_cons (by decide) _
        · split
          · apply maybeRecord_ownEffect
          · simp
  | unknown name =>
    have hlog : PlainLog c.logUnknownPolicy := plainLog_cons (by decide) _
    simpa [OwnEffect] using hlog
  | _ => simp [OwnEffect]

theorem recordFailure_ownEffect (records : Prop) (fo : FailoverAttemptResult)
    (error : SendError) : ∀ x ∈ c.recordFailure fo error, c.OwnEffect records x := by
  unfold recordFailure
  split
  · split
    · simp
    · split
      · apply maybeRecord_ownEffect
      · split_ifs
        · apply maybeRecord_ownEffect
        · simp
  · simp

/-- Everything a delivery does is its own, and it records its batch only on the inputs
`RecordsKeys` names. -/
theorem sendRouteEvents_ownEffect :
    ∀ x ∈ c.sendRouteEvents.2, c.OwnEffect c.RecordsKeys x := by
  by_cases hadm : c.Admitted
  · cases hp : c.world.primary.error with
    | none =>
      have hlog (l : ℕ) : PlainLog (c.logSendSuccess l) := plainLog_cons (by decide) _
      have hrec : c.RecordsKeys := ⟨hadm, by simp [hp]⟩
      simp [sendRouteEvents, hadm.1, hadm.2, hp, OwnEffect, hlog, hrec]
    | some error =>
      have hfo : (∀ x ∈ (c.failover error).2, c.OwnEffect c.RecordsKeys x) ∧
          (c.SecondaryAccepts error →
            (c.failover error).1.attempted = true ∧ (c.failover error).1.succeeded = true) := by
        have hcase := c.failover_cases error
        generalize c.failover error = fo at hcase
        cases hcase with
        | notAttempted hb => simp [SecondaryAccepts, hb]
        | closed hlog hb ho =>
          refine ⟨by simpa [OwnEffect] using hlog, ?_⟩
          rintro ⟨b, hb', ho', -⟩
          obtain rfl : _ = b := Option.some.inj (hb.symm.trans hb')
          exact absurd ho' ho
        | accepted hlog hlog' => simp [OwnEffect, hlog, hlog']
        | failed hlog hlog' hb ho hs =>
          refine ⟨by simp [OwnEffect, hlog, hlog'], ?_⟩
          rintro ⟨b, -, -, hs'⟩
          simp [hs] at hs'
      rw [sendRouteEvents_failed hadm hp]
      simp only [afterPrimaryFailure, List.forall_mem_cons, List.forall_mem_append]
      refine ⟨by simp [OwnEffect], plainLog_cons (by decide) _, ⟨hfo.1, ?_⟩,
        c.recordFailure_ownEffect _ _ error⟩
      split_ifs with hacc
      · simp
      · refine fun x hx => (c.applyFailurePolicy_ownEffect x hx).mono fun hrec => ⟨hadm, ?_⟩
        intro e he
        obtain rfl : error = e := Option.some.inj (hp.symm.trans he)
        exact ⟨fun h => hacc (by simp [hfo.2 h]), hrec⟩
  · unfold sendRouteEvents
    split_ifs with hen hlim
    · simp
    · have hlog : PlainLog c.logRateLimited := plainLog_cons (by decide) _
      simpa [OwnEffect] using hlog
    · exact absurd ⟨by simpa using hen, by simpa using hlim⟩ hadm

/-- The inputs on which the batch gets out or its failure is absorbed. -/
def Served (c : SendCall) : Prop :=
  c.Admitted ∧ ∀ error, c.world.primary.error = some error →
    c.SecondaryAccepts error ∨ c.Recovers ∨
      (c.secondaryFor error = none ∧ c.route.failurePolicy = .logAndContinue)

theorem served_iff : c.Served ↔ c.Delivered c.sendRouteEvents.2 ∨
    c.sendRouteEvents.1.failureAbsorbed = true := by
  by_cases hadm : c.Admitted
  · cases hp : c.world.primary.error with
    | none => simp [Served, hadm, hp, (sendRouteEvents_primary hadm hp).2.2]
    | some error =>
      obtain ⟨-, habs, hdel⟩ := c.afterPrimaryFailure_spec error
      rw [sendRouteEvents_failed hadm hp]
      simp [Served, hadm, hp, habs, hdel, or_assoc]
  · obtain ⟨-, habs, hdel⟩ := sendRouteEvents_not_admitted hadm
    simp [Served, hadm, habs, hdel]

end SendCall

/-- Not a send of a dynamic route. -/
def BaseEffect : Effect → Prop
  | .send a => ∀ id, a.target ≠ .dynamicRoute id
  | _ => True

theorem SendCall.OwnEffect.base {c : SendCall} {records : Prop} {x : Effect}
    (h : c.OwnEffect records x) : BaseEffect x := by
  cases x with
  | send a => exact h.2
  | _ => trivial

end Delivery
