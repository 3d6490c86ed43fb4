import DataRelay.Delivery.SendTruth

/-! Which replay rows one route delivery writes. The exhausted-retry branch and the end of
the failure path record independently of each other. -/
namespace Delivery
namespace SendCall

variable {c : SendCall}

/-- The run may record, and every error the sends raise may be recorded. -/
structure Recording (c : SendCall) : Prop where
  onFailure : c.recordReplayOnFailure = true
  notDryRun : c.runOpts.dryRun = false
  noStart : c.runOpts.replayStart = none
  noEnd : c.runOpts.replayEnd = none
  primary : isReplayRecordEligible c.world.primary.error false = true
  secondary : isReplayRecordEligible c.world.secondary.error false = true
  resend : ∀ i, isReplayRecordEligible (c.world.resend i).error false = true

/-- A row for this batch, aimed at `d`. -/
def RowFor (c : SendCall) (d : ℤ) (row : StreamReplayEvent) : Prop :=
  row.destinationId = d ∧ row.protectedPayload = c.routeEvents.take maxReplayEvents

/-- `rows` is one row for the batch when `d` names a stored destination and the row is stored,
else nothing. -/
def RecordsAt (c : SendCall) (d : ℤ) (stored : Bool) (rows : List StreamReplayEvent) : Prop :=
  if c.routeEvents ≠ [] ∧ 0 < d ∧ stored = true then ∃ row, rows = [row] ∧ c.RowFor d row
  else rows = []

theorem maybeRecord_recordsAt (h : c.Recording) {d : ℤ} {t : String}
    {p : MessagePrefixContext} {k : DeliveryKind} {e : Option SendError} {f : Option ℤ}
    {stored : Bool} (he : isReplayRecordEligible e false = true) :
    c.RecordsAt d stored (replayRows (c.maybeRecordReplayEvent d t p k e f stored)) := by
  have hai : e.any (·.kind = .aiPolicyEnforcement) = false := by
    cases e with
    | none => rfl
    | some e =>
      by_contra hk
      simp only [Option.any_some, Bool.not_eq_false, decide_eq_true_eq] at hk
      simp [isReplayRecordEligible, hk] at he
  by_cases hs : c.routeEvents ≠ [] ∧ 0 < d ∧ stored = true
  · have hd : ¬ d ≤ 0 := by omega
    have ht : List.take maxReplayEvents c.routeEvents ≠ [] := by
      simpa [List.take_eq_nil_iff, maxReplayEvents] using hs.1
    simp [RecordsAt, RowFor, maybeRecordReplayEvent, recordStreamReplayEvent, snapshotEvents, hs,
      h.notDryRun, h.noStart, h.noEnd, hai, hd, he, ht]
  · rw [RecordsAt, if_neg hs]
    by_cases hd : c.routeEvents = [] ∨ d ≤ 0
    · simp [maybeRecordReplayEvent, h.notDryRun, h.noStart, h.noEnd, hd]
    · rw [not_or, not_le] at hd
      have hstored : stored = false := by simpa [hd] using hs
      have hrow (s d' : ℤ) (ctx : DeliveryContext) (r : Option ℤ) :
          recordStreamReplayEvent s d' k c.routeEvents ctx e false r none f false = none := by
        simp [recordStreamReplayEvent]
      simp [maybeRecordReplayEvent, hstored, hrow]

/-- The loop itself records nothing, and what it raised last may be recorded. -/
theorem retryLoop_rows (h : c.Recording) (n idx : ℕ) (lastExc : Option SendError)
    (hl : isReplayRecordEligible lastExc false = true) :
    replayRows (c.retryLoop n idx lastExc).2 = [] ∧
      isReplayRecordEligible (c.retryLoop n idx lastExc).1.2 false = true := by
  induction n generalizing idx lastExc with
  | zero => exact ⟨rfl, hl⟩
  | succ n ih =>
    have hr := h.resend idx
    cases he : (c.world.resend idx).error with
    | none => simp [retryLoop, he, isReplayRecordEligible]
    | some e =>
      rw [he] at hr
      simpa [retryLoop, he] using ih (idx + 1) (some e) hr

/-- Where the exhausted-retry branch aims its row: nowhere without a destination id. -/
def retryTarget (c : SendCall) : ℤ := c.route.destination.id.getD 0

/-- Exhausted retries record one row for the route's own destination. -/
theorem applyFailurePolicy_rows_exhausted (h : c.Recording)
    (hp : c.route.failurePolicy = .retryAndBackoff) (hr : ¬ c.Recovers) :
    c.RecordsAt c.retryTarget c.world.retryRowStored (replayRows c.applyFailurePolicy.2) := by
  unfold applyFailurePolicy
  rw [hp]
  by_cases hev : c.routeEvents = []
  · simp [hev, RecordsAt]
  · obtain ⟨hloop, -⟩ := c.retryLoop_spec c.route.retryCount.toNat 0 none
    obtain ⟨hrows, hlast⟩ := retryLoop_rows h c.route.retryCount.toNat 0 none rfl
    have hfalse : (c.retryLoop c.route.retryCount.toNat 0 none).1.1 = false := by
      by_contra ht
      simp only [Bool.not_eq_false, Nat.zero_add] at ht hloop
      exact hr ⟨hp, hev, hloop.mp ht⟩
    simp only [List.isEmpty_iff, hev, ↓reduceIte]
    split
    · next heq => simp [heq] at hfalse
    · next lastExc es heq =>
      rw [heq] at hrows hlast
      have hrows : replayRows es = [] := hrows
      simp only [replayRows_append, hrows, List.nil_append, replayRows_cons, replayRows_nil,
        Effect.replayRow?, Option.toList_none]
      cases hd : c.route.destination.id with
      | none => simp [retryTarget, hd, RecordsAt]
      | some d => simpa [retryTarget, hd] using maybeRecord_recordsAt h hlast

/-- A failure policy that recovers, or does not retry, records nothing. -/
theorem applyFailurePolicy_rows_nil (h : c.Recording)
    (hr : c.route.failurePolicy = .retryAndBackoff → c.Recovers) :
    replayRows c.applyFailurePolicy.2 = [] := by
  unfold applyFailurePolicy
  cases hp : c.route.failurePolicy with
  | retryAndBackoff =>
    obtain ⟨-, hev, hret⟩ := hr hp
    obtain ⟨hloop, -⟩ := c.retryLoop_spec c.route.retryCount.toNat 0 none
    obtain ⟨hrows, -⟩ := retryLoop_rows h c.route.retryCount.toNat 0 none rfl
    simp only [Nat.zero_add] at hloop
    have htrue := hloop.mpr hret
    simp only [List.isEmpty_iff, hev, ↓reduceIte]
    split
    · next heq => rwa [heq] at hrows
    · next heq => simp [heq] at htrue
  | _ => simp

/-- Where the end of the failure path aims its row: the secondary if it was sent to. -/
def tailTarget (c : SendCall) (error : SendError) : ℤ :=
  match c.secondaryFor error with
  | some b => if c.SecondaryOpen b then b.secondaryDestinationId else c.retryTarget
  | none => c.retryTarget

theorem secondaryFor_lookup {error : SendError} {b : FailoverRouteBinding}
    (hb : c.secondaryFor error = some b) : ∃ d bindings,
      c.route.destination.id = some d ∧ c.bindingsInForce = some bindings ∧
        bindings.lookup d = some b := by
  unfold secondaryFor at hb
  split at hb
  · next d bindings hd hin =>
    split_ifs at hb
    exact ⟨d, bindings, hd, hin, hb⟩
  · simp at hb

/-- Without a send to the secondary, the row goes to the route's own destination. -/
theorem recordFailure_base (h : c.Recording) (fo : FailoverAttemptResult) {error : SendError}
    (he : isReplayRecordEligible (some error) false = true)
    (hs : fo.secondarySendAttempted = false) (hf : fo.succeeded = false) :
    c.RecordsAt c.retryTarget c.world.failureRowStored
      (replayRows (c.recordFailure fo error)) := by
  unfold recordFailure
  cases hd : c.route.destination.id with
  | none =>
    have : ¬ (c.routeEvents ≠ [] ∧ 0 < c.retryTarget ∧ c.world.failureRowStored = true) := by
      simp [retryTarget, hd]
    simp only [RecordsAt, if_neg this, h.onFailure]
    cases c.bindingsInForce <;> rfl
  | some d =>
    have hin : c.bindingsInForce =
        some (c.failoverBindings.getD (c.world.loadedBindings.getD [])) := by
      simp [bindingsInForce, hd]
    simp only [h.onFailure, hin, hs, hf, Bool.false_and, Bool.not_false, Bool.and_self, ↓reduceIte,
      retryTarget, hd, Option.getD_some]
    exact maybeRecord_recordsAt h he

/-- A failover that took the batch over leaves no row. -/
theorem failurePath_rows_accepted (h : c.Recording) {error : SendError}
    (hacc : c.SecondaryAccepts error) : replayRows (c.afterPrimaryFailure error).2 = [] := by
  obtain ⟨b, hb, ho, hs⟩ := hacc
  have hcase := c.failover_cases error
  unfold afterPrimaryFailure
  generalize c.failover error = fo at hcase
  cases hcase with
  | notAttempted hb' => simp [hb] at hb'
  | closed _ hb' ho' =>
    obtain rfl := Option.some.inj (hb.symm.trans hb')
    exact absurd ho ho'
  | accepted _ _ hb' ho' hs' =>
    obtain ⟨d, bindings, hd, hin, hl⟩ := secondaryFor_lookup hb'
    simp [recordFailure, h.onFailure, hin, hd]
  | failed _ _ hb' ho' hs' => simp [hs] at hs'

/-- Otherwise the rows are those of the failure policy and those of the end of the path. -/
theorem failurePath_rows (h : c.Recording) {error : SendError}
    (hp : c.world.primary.error = some error) (hacc : ¬ c.SecondaryAccepts error) :
    ∃ tail, c.RecordsAt (c.tailTarget error) c.world.failureRowStored tail ∧
      replayRows (c.afterPrimaryFailure error).2 =
        replayRows c.applyFailurePolicy.2 ++ tail := by
  have he : isReplayRecordEligible (some error) false = true := hp ▸ h.primary
  have hcase := c.failover_cases error
  unfold afterPrimaryFailure
  generalize c.failover error = fo at hcase
  cases hcase with
  | notAttempted hb =>
    exact ⟨_, by simpa [tailTarget, hb] using recordFailure_base h {} he rfl rfl,
      by simp⟩
  | closed _ hb ho =>
    exact ⟨_, by
      simpa [tailTarget, hb, ho] using
        recordFailure_base h { attempted := true } he rfl rfl,
      by simp⟩
  | accepted _ _ hb ho hs => exact absurd ⟨_, hb, ho, hs⟩ hacc
  | failed _ _ hb ho hs =>
    obtain ⟨d, bindings, hd, hin, hl⟩ := secondaryFor_lookup hb
    refine ⟨replayRows (c.recordFailure _ error), ?_, by simp; rfl⟩
    simp only [tailTarget, hb, ho, ↓reduceIte, recordFailure, h.onFailure, hin, hd, hl,
      Bool.not_false, Bool.and_self]
    exact maybeRecord_recordsAt h (hs ▸ h.secondary)

/-- The rows match the sends: a row exactly when no send of the batch returned, and then
one row that holds the whole batch. -/
structure ReplayMatches (c : SendCall) : Prop where
  row_iff : replayRows c.sendRouteEvents.2 ≠ [] ↔ ¬ c.Delivered c.sendRouteEvents.2
  single : ¬ c.Delivered c.sendRouteEvents.2 →
    ∃ row, replayRows c.sendRouteEvents.2 = [row] ∧ row.protectedPayload = c.routeEvents

/-- The batch fits in one snapshot. -/
def Storable (c : SendCall) : Prop :=
  c.routeEvents ≠ [] ∧ c.routeEvents.length ≤ maxReplayEvents

/-- The exhausted-retry branch leaves a row: it has a target, and the insert goes through. -/
def RetryRecords (c : SendCall) : Prop := 0 < c.retryTarget ∧ c.world.retryRowStored = true

/-- The end of the failure path leaves a row. -/
def FailureRecords (c : SendCall) (error : SendError) : Prop :=
  0 < c.tailTarget error ∧ c.world.failureRowStored = true

/-- The inputs on which recording is exact. With retries, just one of the two recorders leaves
its row; a target without a stored id leaves none, and stored ids are positive. -/
def ReplayExact (c : SendCall) : Prop :=
  c.Admitted ∧ ∀ error, c.world.primary.error = some error → ¬ c.SecondaryAccepts error →
    if c.route.failurePolicy = .retryAndBackoff then
      (c.Recovers ∧ ¬ c.FailureRecords error) ∨
        (¬ c.Recovers ∧ c.Storable ∧ Xor c.RetryRecords (c.FailureRecords error))
    else c.Storable ∧ c.FailureRecords error

theorem RecordsAt.eq_nil_iff {d : ℤ} {stored : Bool} {rows : List StreamReplayEvent}
    (h : c.RecordsAt d stored rows) :
    rows = [] ↔ c.routeEvents = [] ∨ ¬ (0 < d ∧ stored = true) := by
  unfold RecordsAt at h
  split_ifs at h with hs
  · obtain ⟨row, rfl, -⟩ := h
    simp [hs.1, hs.2]
  · rw [not_and_or, not_not] at hs
    exact iff_of_true h hs

theorem RecordsAt.whole_iff {d : ℤ} {stored : Bool} {rows : List StreamReplayEvent}
    (h : c.RecordsAt d stored rows) :
    (∃ row, rows = [row] ∧ row.protectedPayload = c.routeEvents) ↔
      c.Storable ∧ 0 < d ∧ stored = true := by
  unfold RecordsAt at h
  split_ifs at h with hs
  · obtain ⟨row, rfl, -, hrow⟩ := h
    simp [hrow, Storable, hs]
  · subst h
    simp only [List.ne_cons_self, false_and, exists_false, false_iff, Storable]
    exact fun hn => hs ⟨hn.1.1, hn.2⟩

/-- With no send accepted, matching means one row for the whole batch. -/
theorem replayMatches_iff_of_not_delivered (hd : ¬ c.Delivered c.sendRouteEvents.2) :
    c.ReplayMatches ↔
      ∃ row, replayRows c.sendRouteEvents.2 = [row] ∧ row.protectedPayload = c.routeEvents := by
  constructor
  · exact fun h => h.single hd
  · rintro ⟨row, hrow, hpay⟩
    exact ⟨by simp [hrow, hd], fun _ => ⟨row, hrow, hpay⟩⟩

theorem replayMatches_iff_of_delivered (hd : c.Delivered c.sendRouteEvents.2) :
    c.ReplayMatches ↔ replayRows c.sendRouteEvents.2 = [] := by
  constructor
  · intro h
    by_contra hne
    exact h.row_iff.mp hne hd
  · intro hnil
    exact ⟨by simp [hnil, hd], fun hn => absurd hd hn⟩

/-- Two recorders give one whole row exactly when one of them has a target. -/
theorem recordsAt_append_whole_iff {d e : ℤ} {stored stored' : Bool}
    {rows tail : List StreamReplayEvent} (hrows : c.RecordsAt d stored rows)
    (htail : c.RecordsAt e stored' tail) :
    (∃ row, rows ++ tail = [row] ∧ row.protectedPayload = c.routeEvents) ↔
      c.Storable ∧ Xor (0 < d ∧ stored = true) (0 < e ∧ stored' = true) := by
  have hsplit : (∃ row, rows ++ tail = [row] ∧ row.protectedPayload = c.routeEvents) ↔
      ((∃ row, rows = [row] ∧ row.protectedPayload = c.routeEvents) ∧ tail = []) ∨
        (rows = [] ∧ ∃ row, tail = [row] ∧ row.protectedPayload = c.routeEvents) := by
    simp only [List.append_eq_singleton_iff]
    aesop
  rw [hsplit, hrows.whole_iff, htail.whole_iff, hrows.eq_nil_iff, htail.eq_nil_iff]
  by_cases hev : c.routeEvents = []
  · simp [Storable, hev]
  · simp only [hev, false_or, Xor]
    constructor
    · rintro (⟨⟨hs, hd⟩, he⟩ | ⟨hd, hs, he⟩)
      · exact ⟨hs, .inl ⟨hd, he⟩⟩
      · exact ⟨hs, .inr ⟨he, hd⟩⟩
    · rintro ⟨hs, ⟨hd, he⟩ | ⟨he, hd⟩⟩
      · exact .inl ⟨⟨hs, hd⟩, he⟩
      · exact .inr ⟨hd, hs, he⟩

/-- Recording is exact on the inputs of `ReplayExact` and on no others. -/
theorem replayMatches_iff (h : c.Recording) : c.ReplayMatches ↔ c.ReplayExact := by
  by_cases hadm : c.Admitted
  · cases hp : c.world.primary.error with
    | none =>
      rw [replayMatches_iff_of_delivered (sendRouteEvents_primary hadm hp).2.2]
      simp [sendRouteEvents, ReplayExact, hadm, hadm.1, hadm.2, hp]
    | some error =>
      have hd : c.Delivered c.sendRouteEvents.2 ↔ c.SecondaryAccepts error ∨ c.Recovers := by
        rw [sendRouteEvents_failed hadm hp, delivered_send, (c.afterPrimaryFailure_spec error).2.2]
        simp
      have hrows : replayRows c.sendRouteEvents.2 =
          replayRows (c.afterPrimaryFailure error).2 := by
        rw [sendRouteEvents_failed hadm hp]
        rfl
      by_cases hacc : c.SecondaryAccepts error
      · rw [replayMatches_iff_of_delivered (hd.mpr (.inl hacc)), hrows]
        simp [failurePath_rows_accepted h hacc, ReplayExact, hadm, hp, hacc]
      · have hexact : c.ReplayExact ↔ if c.route.failurePolicy = .retryAndBackoff then
            (c.Recovers ∧ ¬ c.FailureRecords error) ∨
              (¬ c.Recovers ∧ c.Storable ∧ Xor c.RetryRecords (c.FailureRecords error))
            else c.Storable ∧ c.FailureRecords error := by
          simp [ReplayExact, hadm, hp, hacc]
        obtain ⟨tail, htail, hsplit⟩ := failurePath_rows h hp hacc
        have hd : c.Delivered c.sendRouteEvents.2 ↔ c.Recovers := by simpa [hacc] using hd
        rw [hsplit] at hrows
        rw [hexact]
        by_cases hpol : c.route.failurePolicy = .retryAndBackoff
        · rw [if_pos hpol]
          by_cases hrec : c.Recovers
          · rw [applyFailurePolicy_rows_nil h fun _ => hrec, List.nil_append] at hrows
            rw [replayMatches_iff_of_delivered (hd.mpr hrec), hrows, htail.eq_nil_iff]
            simp only [hrec, hrec.2.1, FailureRecords, not_true_eq_false, false_or, true_and,
              false_and, or_false]
          · rw [replayMatches_iff_of_not_delivered (hd.not.mpr hrec), hrows,
              recordsAt_append_whole_iff (applyFailurePolicy_rows_exhausted h hpol hrec) htail]
            simp [hrec, RetryRecords, FailureRecords]
        · have hrec : ¬ c.Recovers := fun hr => hpol hr.1
          rw [applyFailurePolicy_rows_nil h fun h' => absurd h' hpol, List.nil_append] at hrows
          rw [if_neg hpol, replayMatches_iff_of_not_delivered (hd.not.mpr hrec), hrows,
            htail.whole_iff, FailureRecords]
  · have hd := (sendRouteEvents_not_admitted hadm).2.2
    refine iff_of_false ?_ fun he => hadm he.1
    rw [replayMatches_iff_of_not_delivered hd]
    by_cases hen : c.route.destination.enabled = true
    · have hlim : c.world.limiterAllows = false := by simpa [Admitted, hen] using hadm
      simp [sendRouteEvents, hen, hlim]
    · simp [sendRouteEvents, hen]

/-- A webhook refuses the batch, and so do both resends. -/
def exhaustedRetries : SendCall where
  stream := ⟨1, "alerts"⟩
  route := { id := 10, destination := { id := some 5, destinationType := "WEBHOOK_POST" }
             failurePolicy := .retryAndBackoff }
  routeEvents := [[("event_id", .str "e-1")]]
  recordReplayOnFailure := true
  world := { primary := ⟨12, some ⟨.destinationSend, "DestinationSendError", some 400, "HTTP 400"⟩⟩
             resend := fun _ =>
              ⟨9, some ⟨.destinationSend, "DestinationSendError", some 400, "HTTP 400"⟩⟩ }

theorem exhaustedRetries_recording : exhaustedRetries.Recording :=
  ⟨rfl, rfl, rfl, rfl, rfl, rfl, fun _ => rfl⟩

/-- Two rows are written for the one batch. -/
theorem exhaustedRetries_not_matches :
    exhaustedRetries.Recording ∧ ¬ exhaustedRetries.ReplayMatches := by
  refine ⟨exhaustedRetries_recording, fun h => ?_⟩
  have hd : ¬ exhaustedRetries.Delivered exhaustedRetries.sendRouteEvents.2 := by
    rintro ⟨a, ha, -, hr⟩
    have : ∀ a ∈ attempts exhaustedRetries.sendRouteEvents.2, a.returned = false := by decide
    simp [this a ha] at hr
  obtain ⟨row, hrow, -⟩ := h.single hd
  have hlen : (replayRows exhaustedRetries.sendRouteEvents.2).length = 2 := by decide
  simp [hrow] at hlen

theorem exhaustedRetries_exact_iff :
    exhaustedRetries.Recording ∧
      (exhaustedRetries.ReplayMatches ↔ exhaustedRetries.ReplayExact) :=
  ⟨exhaustedRetries_recording, replayMatches_iff exhaustedRetries_recording⟩

end SendCall
end Delivery
