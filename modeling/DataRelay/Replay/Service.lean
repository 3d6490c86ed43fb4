import DataRelay.Delivery.SendRoute
import DataRelay.Lib.PyText

/-! Replay of a stored delivery. A call claims the row in a transaction of its own, sends, and
finishes in another; a discard is one transaction. The locking SELECT does not refresh an object
that the session has loaded before, so a claim decides from the session's copy of the row and
its UPDATE writes what it changed there. -/
namespace Replay
open Delivery

inductive ReplayStatus where
  | pending
  | replaying
  | replayed
  | failed
  | discarded
  deriving DecidableEq, Repr

def ReplayStatus.name : ReplayStatus → String
  | .pending => "pending"
  | .replaying => "replaying"
  | .replayed => "replayed"
  | .failed => "failed"
  | .discarded => "discarded"

/-- `REPLAY_TERMINAL_STATUSES`. -/
def ReplayStatus.terminal (s : ReplayStatus) : Bool := s = .replayed || s = .discarded

/-- `_REPLAYABLE_STATUSES`. -/
def ReplayStatus.replayable (s : ReplayStatus) : Bool :=
  s = .pending || s = .failed || s = .replaying

/-- Instants count microseconds; `_claim_is_fresh` allows `REPLAY_CLAIM_STALE_AFTER_SECONDS`. -/
def replayClaimStaleAfter : ℤ := 120 * 1000000

def atLeastOnce : String := "at_least_once"

/-- `delivery_context_json["delivery_attempt"]`; a missing member is `none`, and `claimedAt` is
what `_parse_claimed_at` reads. -/
structure DeliveryAttempt where
  attemptId : Option String := none
  idempotencyKey : Option String := none
  deliveryGuarantee : Option String := none
  priorDeliveryUncertain : Bool := false
  claimedAt : Option ℤ := none
  deriving DecidableEq, Repr

/-- A row of the replay table; `attempt` is the part of its delivery context that changes. -/
structure ReplayRow extends StreamReplayEvent where
  id : ℤ
  status : ReplayStatus := .pending
  retryCount : ℕ := 0
  updatedAt : ℤ
  lastReplayAt : Option ℤ := none
  attempt : DeliveryAttempt := {}
  deriving DecidableEq

inductive ReplayError where
  | inProgress (eventId : ℤ)
  | state (errorCode message : String)
  deriving DecidableEq, Repr

def discardedError (message : String) : ReplayError := .state "REPLAY_DISCARDED" message

def alreadyReplayedError : ReplayError :=
  .state "REPLAY_ALREADY_REPLAYED" "replayed events cannot be replayed again"

def claimIsFresh (attempt : DeliveryAttempt) (now : ℤ) : Bool :=
  match attempt.claimedAt with
  | none => false
  | some claimedAt => now - replayClaimStaleAfter ≤ claimedAt

def buildAttemptMeta (eventId : ℤ) (attemptId : String) (claimedAt : ℤ)
    (priorDeliveryUncertain : Bool) : DeliveryAttempt where
  attemptId := some attemptId
  idempotencyKey := some ("replay-" ++ toString eventId ++ "-" ++ attemptId)
  deliveryGuarantee := some atLeastOnce
  priorDeliveryUncertain := priorDeliveryUncertain
  claimedAt := some claimedAt

/-- What a call meets up to its claim: whether the row lock is free, the clock, the fresh
`uuid4().hex`, the destination's `enabled` (if there is one), and the rate limiter. -/
structure ClaimInput where
  lockFree : Bool := true
  now : ℤ
  uuid : String
  destination : Option Bool := some true
  limiterAllows : Bool := true
  deriving DecidableEq, Repr

namespace ClaimInput

/-- A stale claim hands on its identity, any other claim gets a new one. -/
def attemptId (c : ClaimInput) (row : ReplayRow) : String :=
  if row.status = .replaying then
    let existing := PyText.strip (row.attempt.attemptId.getD "")
    if existing = "" then c.uuid else existing
  else c.uuid

def attempt (c : ClaimInput) (row : ReplayRow) : DeliveryAttempt :=
  let attempt := buildAttemptMeta row.id (c.attemptId row) c.now (row.status = .replaying)
  match row.attempt.idempotencyKey with
  | some key =>
    if row.status = .replaying ∧ key ≠ "" then { attempt with idempotencyKey := some key }
    else attempt
  | none => attempt

end ClaimInput

/-- A column after the UPDATE of a flush: only a value that differs from the loaded one is
written. -/
def flushed {α : Type} [DecidableEq α] (loaded written stored : α) : α :=
  if written = loaded then stored else written

@[simp] theorem flushed_loaded {α : Type} [DecidableEq α] (loaded written : α) :
    flushed loaded written loaded = written := by
  unfold flushed
  split_ifs with h
  · exact h.symm
  · rfl

theorem flushed_eq_or {α : Type} [DecidableEq α] (loaded written stored : α) :
    flushed loaded written stored = written ∨
      written = loaded ∧ flushed loaded written stored = stored := by
  unfold flushed
  split_ifs with h
  · exact .inr ⟨h, rfl⟩
  · exact .inl rfl

/-- `_commit_replay_claim` of a session whose object holds `copy`, over the stored row. -/
def commitReplayClaim (copy row : ReplayRow) (attempt : DeliveryAttempt) (now : ℤ) : ReplayRow :=
  { row with
    attempt := flushed copy.attempt attempt row.attempt
    status := flushed copy.status .replaying row.status
    updatedAt := flushed copy.updatedAt now row.updatedAt
    lastReplayAt := flushed copy.lastReplayAt (some now) row.lastReplayAt
    errorType := flushed copy.errorType none row.errorType
    errorMessage := flushed copy.errorMessage none row.errorMessage }

/-- `execute_replay_event` up to and with `_commit_replay_claim`. The locked row is `row`, and
`copy` is what the session's object of it holds. -/
def claimReplayEvent (c : ClaimInput) (copy row : ReplayRow) :
    Except ReplayError (ReplayRow × DeliveryAttempt) :=
  if !c.lockFree then .error (.inProgress copy.id)
  else if copy.status = .discarded then
    .error (discardedError "discarded replay events cannot be replayed")
  else if copy.status = .replayed then .error alreadyReplayedError
  else if !copy.status.replayable then
    .error (.state "REPLAY_INVALID_STATE" ("replay not allowed for status '" ++ copy.status.name ++ "'"))
  else if copy.status = .replaying ∧ claimIsFresh copy.attempt c.now = true then
    .error (.inProgress copy.id)
  else if copy.protectedPayload.isEmpty then
    .error (.state "REPLAY_PAYLOAD_EMPTY" "stored protected payload is empty")
  else
    match c.destination with
    | none => .error (.state "REPLAY_DESTINATION_NOT_FOUND" "destination not found")
    | some false => .error (.state "REPLAY_DESTINATION_DISABLED" "destination is disabled")
    | some true =>
      if !c.limiterAllows then
        .error (.state "REPLAY_DESTINATION_RATE_LIMITED" "destination rate limited")
      else .ok (commitReplayClaim copy row (c.attempt copy) c.now, c.attempt copy)

/-- What a call meets after its send. -/
structure FinishInput where
  lockFree : Bool := true
  now : ℤ
  sendError : Option SendError := none
  deriving DecidableEq

inductive ReplayOutcome where
  | failed
  | replayed
  deriving DecidableEq, Repr

/-- What `execute_replay_event` returns: the row, and the fields of the attempt over it. -/
structure ReplayResult where
  row : ReplayRow
  outcome : ReplayOutcome
  message : String
  attempt : DeliveryAttempt
  deriving DecidableEq

def replayedMessage : String :=
  "Replay delivered successfully (checkpoint unchanged; " ++
    "at-least-once — destination may see duplicates if it cannot dedupe)."

def failReplay (row : ReplayRow) (attempt : DeliveryAttempt) (now : ℤ) (error : SendError) :
    ReplayRow :=
  { row with
    status := .failed
    retryCount := row.retryCount + 1
    updatedAt := now
    lastReplayAt := some now
    errorType := some error.typeName
    errorMessage := some (String.ofList (error.message.toList.take 2000))
    attempt := { attempt with priorDeliveryUncertain := true } }

def completeReplay (row : ReplayRow) (attempt : DeliveryAttempt) (now : ℤ) : ReplayRow :=
  { row with
    status := .replayed
    retryCount := row.retryCount + 1
    updatedAt := now
    lastReplayAt := some now
    errorType := none
    errorMessage := none
    attempt := attempt }

/-- `execute_replay_event` from the second lock on, for the call that claimed `attempt`. The
commit of the claim expired the session's object, so the stored row is read. -/
def finishReplayEvent (f : FinishInput) (attempt : DeliveryAttempt) (row : ReplayRow) :
    Except ReplayError (ReplayRow × ReplayResult) :=
  if !f.lockFree then .error (.inProgress row.id)
  else if row.status = .discarded then
    .error (discardedError "replay event was discarded during delivery")
  else if row.status = .replayed then .error alreadyReplayedError
  else
    match f.sendError with
    | some error =>
      let row := failReplay row attempt f.now error
      .ok (row, ⟨row, .failed, error.message, row.attempt⟩)
    | none =>
      let row := completeReplay row attempt f.now
      .ok (row, ⟨row, .replayed, replayedMessage, attempt⟩)

def discardReplayEvent (lockFree : Bool) (now : ℤ) (row : ReplayRow) :
    Except ReplayError ReplayRow :=
  if !lockFree then .error (.inProgress row.id)
  else if row.status.terminal then
    .error (.state "REPLAY_INVALID_STATE"
      ("cannot discard replay event in status '" ++ row.status.name ++ "'"))
  else .ok { row with status := .discarded, updatedAt := now }

/-- A claim is granted when the copy is not terminal and its claim, if any, is stale. -/
theorem claimReplayEvent_ok {c : ClaimInput} {copy row : ReplayRow}
    {p : ReplayRow × DeliveryAttempt} (h : claimReplayEvent c copy row = .ok p) :
    p = (commitReplayClaim copy row (c.attempt copy) c.now, c.attempt copy) ∧
      copy.status.terminal = false := by
  unfold claimReplayEvent at h
  split_ifs at h with _ hd hr
  · split at h <;> cases h
  · have hterminal : copy.status.terminal = false := by simp [ReplayStatus.terminal, hd, hr]
    split at h
    · cases h
    · cases h
    · exact ⟨(Except.ok.inj h).symm, hterminal⟩

theorem claimReplayEvent_of_isOk {c : ClaimInput} {copy row : ReplayRow}
    (h : (claimReplayEvent c copy row).isOk = true) : claimReplayEvent c copy row =
      .ok (commitReplayClaim copy row (c.attempt copy) c.now, c.attempt copy) := by
  cases hc : claimReplayEvent c copy row with
  | error e => simp [hc, Except.isOk, Except.toBool] at h
  | ok p => rw [(claimReplayEvent_ok hc).1]

/-- A finishing call writes any row that is not terminal, whoever claimed it. -/
theorem finishReplayEvent_ok {f : FinishInput} {attempt : DeliveryAttempt} {row : ReplayRow}
    {p : ReplayRow × ReplayResult} (h : finishReplayEvent f attempt row = .ok p) :
    row.status.terminal = false ∧
      ((∃ error, f.sendError = some error ∧ p.1 = failReplay row attempt f.now error ∧
          p.2.attempt = { attempt with priorDeliveryUncertain := true }) ∨
        (f.sendError = none ∧ p.1 = completeReplay row attempt f.now ∧ p.2.attempt = attempt)) := by
  unfold finishReplayEvent at h
  split_ifs at h with _ hd hr
  refine ⟨by simp [ReplayStatus.terminal, hd, hr], ?_⟩
  split at h
  · rename_i error herror
    obtain rfl := Except.ok.inj h
    exact .inl ⟨error, herror, rfl, rfl⟩
  · rename_i herror
    obtain rfl := Except.ok.inj h
    exact .inr ⟨herror, rfl, rfl⟩

theorem discardReplayEvent_ok {lockFree : Bool} {now : ℤ} {row row' : ReplayRow}
    (h : discardReplayEvent lockFree now row = .ok row') :
    row.status.terminal = false ∧ row' = { row with status := .discarded, updatedAt := now } := by
  unfold discardReplayEvent at h
  split_ifs at h with _ ht
  exact ⟨by simpa using ht, (Except.ok.inj h).symm⟩

end Replay
