import DataRelay.Runner.StreamRun

/-! Release of a quarantined batch: the stored events go to the routes as they are, and the
checkpoint of the stream is written from the last of them. -/
namespace Quarantine
open Delivery Runner

inductive QuarantineStatus where
  | quarantined
  | released
  | discarded
  | other (name : String)
  deriving DecidableEq, Repr

def QuarantineStatus.text : QuarantineStatus → String
  | .quarantined => "quarantined"
  | .released => "released"
  | .discarded => "discarded"
  | .other name => name

def QuarantineStatus.isTerminal (s : QuarantineStatus) : Bool := s = .released ∨ s = .discarded

/-- What release and discard use of a row of `stream_quarantine_events`; `events` are the
dictionaries of its payload. -/
structure QuarantineRow where
  routeId : Option ℤ := none
  status : QuarantineStatus := .quarantined
  events : List Event
  releasedBy : Option String := none
  deriving DecidableEq

inductive QuarantineError where
  | notFound
  | inProgress
  | state (code message : String)
  | unhandled (message : String)
  deriving DecidableEq, Repr

/-- A route as the release finds it, with the error its send raises. -/
structure ReleaseRoute where
  id : ℤ
  enabled : Bool := true
  destinationEnabled : Bool := true
  failurePolicy : FailurePolicy := .logAndContinue
  sendError : Option String := none
  deriving DecidableEq

def ReleaseRoute.actionable (routeId : Option ℤ) (r : ReleaseRoute) : Bool :=
  routeId.all (· = r.id) && r.enabled && r.destinationEnabled

/-- `deliver_protected_events_to_routes`. -/
def deliverProtectedEventsToRoutes (routes : List ReleaseRoute) (events : List Event)
    (routeId : Option ℤ) : Bool × Option String :=
  if routes.isEmpty then (false, some "no routes configured")
  else if events.isEmpty then (false, some "empty protected payload")
  else
    let sent := routes.filter (·.actionable routeId)
    if sent.isEmpty then (false, some "no actionable routes")
    else if sent.all (·.sendError.isSome) then
      (false, some (((sent.filterMap (·.sendError)).getLast?).getD "all destination sends failed"))
    else (sent.all fun r => r.sendError.isNone || r.failurePolicy = .logAndContinue, none)

/-- One call of `execute_quarantine_release`, with what it meets: whether the row is locked by
another call, the routes `load_stream_context` finds or its error, the stream, and whether the
checkpoint can be written. -/
structure ReleaseCall where
  releasedBy : Option String := none
  updateCheckpoint : Bool := true
  lockAvailable : Bool := true
  routes : Except String (List ReleaseRoute)
  streamFound : Bool := true
  checkpointWrites : Bool := true

structure ReleaseResult where
  outcome : String
  message : String
  checkpointUpdated : Bool
  deriving DecidableEq, Repr

/-- `_checkpoint_value_from_last_event`: the fields of a run's checkpoint but for the cursor
aliases. -/
def checkpointValueFromLastEvent (last : Event) : Json.Members := checkpointValue (fun _ => none) last

/-- `_update_checkpoint_after_release` when it does not raise. -/
def updateCheckpointAfterRelease (streamFound : Bool) (events : List Event) :
    Option Json.Members :=
  if streamFound then events.getLast?.map checkpointValueFromLastEvent else none

/-- Why a row cannot be released. -/
def QuarantineRow.refusal (row : QuarantineRow) : Option QuarantineError :=
  match row.status with
  | .discarded =>
    some (.state "QUARANTINE_DISCARDED" "discarded quarantine events cannot be released")
  | .released =>
    some (.state "QUARANTINE_ALREADY_RELEASED" "released events cannot be released again")
  | .other name =>
    some (.state "QUARANTINE_INVALID_STATE" ("release not allowed for status '" ++ name ++ "'"))
  | .quarantined =>
    if row.events.isEmpty then
      some (.state "QUARANTINE_PAYLOAD_EMPTY" "stored protected payload is empty")
    else none

namespace ReleaseCall

variable (c : ReleaseCall)

/-- The row once its events are delivered and the checkpoint is written. -/
def markReleased (row : QuarantineRow) : QuarantineRow :=
  let who := (c.releasedBy.filter (!·.isEmpty)).getD "system"
  { row with status := .released, releasedBy := some (String.ofList (who.toList.take 128)) }

/-- `execute_quarantine_release`: the result, the row and the stored checkpoint. -/
def executeQuarantineRelease (row : Option QuarantineRow) (checkpoint : Option Json.Members) :
    Except QuarantineError (ReleaseResult × QuarantineRow × Option Json.Members) :=
  if !c.lockAvailable then .error .inProgress
  else
    match row with
    | none => .error .notFound
    | some row =>
      match row.refusal with
      | some e => .error e
      | none =>
        match c.routes with
        | .error e => .error (.unhandled e)
        | .ok routes =>
          match deliverProtectedEventsToRoutes routes row.events row.routeId with
          | (false, err) =>
            .ok (⟨"failed", err.getD "Release delivery failed.", false⟩, row, checkpoint)
          | (true, _) =>
            if c.updateCheckpoint && !c.checkpointWrites then
              .ok (⟨"failed", "Release delivery succeeded but checkpoint update failed.", false⟩, row,
                checkpoint)
            else
              let after := if c.updateCheckpoint then
                updateCheckpointAfterRelease c.streamFound row.events else none
              .ok (⟨"released", "Quarantine released successfully.", after.isSome⟩,
                c.markReleased row, after.or checkpoint)

end ReleaseCall

/-- `discard_quarantine_event`. -/
def discardQuarantineEvent (lockAvailable : Bool) (row : Option QuarantineRow) :
    Except QuarantineError QuarantineRow :=
  if !lockAvailable then .error .inProgress
  else
    match row with
    | none => .error .notFound
    | some row =>
      if row.status.isTerminal then
        .error (.state "QUARANTINE_INVALID_STATE"
          ("cannot discard quarantine event in status '" ++ row.status.text ++ "'"))
      else .ok { row with status := .discarded }

/-! ### What a release does -/

namespace ReleaseCall

variable {c : ReleaseCall} {row : Option QuarantineRow} {checkpoint : Option Json.Members}

/-- The call delivers the stored events of `row`. -/
structure Delivers (c : ReleaseCall) (row : QuarantineRow) : Prop where
  lock : c.lockAvailable = true
  status : row.status = .quarantined
  events : row.events ≠ []
  routes : ∃ routes, c.routes = .ok routes ∧
    (deliverProtectedEventsToRoutes routes row.events row.routeId).1 = true

/-- The call writes a checkpoint from the last event of `row`. -/
structure Writes (c : ReleaseCall) (row : QuarantineRow) : Prop extends c.Delivers row where
  update : c.updateCheckpoint = true
  stream : c.streamFound = true
  write : c.checkpointWrites = true

/-- A release leaves the checkpoint or writes it from the last stored event. -/
theorem executeQuarantineRelease_cases {result : ReleaseResult} {row' : QuarantineRow}
    {checkpoint' : Option Json.Members}
    (h : c.executeQuarantineRelease row checkpoint = .ok (result, row', checkpoint')) :
    checkpoint' = checkpoint ∨ ∃ r last, row = some r ∧ c.Writes r ∧ r.events.getLast? = some last ∧
      checkpoint' = some (checkpointValueFromLastEvent last) := by
  unfold executeQuarantineRelease at h
  cases hlock : c.lockAvailable with
  | false => simp [hlock] at h
  | true =>
    simp only [hlock, Bool.not_true, Bool.false_eq_true, ↓reduceIte] at h
    cases row with
    | none => simp at h
    | some r =>
      simp only at h
      cases hrefusal : r.refusal with
      | some e => simp [hrefusal] at h
      | none =>
        simp only [hrefusal] at h
        cases hroutes : c.routes with
        | error e => simp [hroutes] at h
        | ok routes =>
          simp only [hroutes] at h
          cases hdeliver : deliverProtectedEventsToRoutes routes r.events r.routeId with
          | mk delivered err =>
            simp only [hdeliver] at h
            cases delivered with
            | false =>
              simp only [Except.ok.injEq, Prod.mk.injEq] at h
              exact .inl h.2.2.symm
            | true =>
              simp only at h
              split at h
              · simp only [Except.ok.injEq, Prod.mk.injEq] at h
                exact .inl h.2.2.symm
              · next hwrites =>
                simp only [Except.ok.injEq, Prod.mk.injEq] at h
                obtain ⟨-, -, rfl⟩ := h
                by_cases hupdate : c.updateCheckpoint = true
                · by_cases hstream : c.streamFound = true
                  · cases hlast : r.events.getLast? with
                    | none => simp [updateCheckpointAfterRelease, hlast]
                    | some last =>
                      have hstatus : r.status = .quarantined := by
                        unfold QuarantineRow.refusal at hrefusal
                        split at hrefusal <;> simp_all
                      have hdelivers : c.Delivers r :=
                        ⟨hlock, hstatus, by rintro hnil; simp [hnil] at hlast, routes, hroutes,
                          by rw [hdeliver]⟩
                      refine .inr ⟨r, last, rfl, ⟨hdelivers, hupdate, hstream, ?_⟩, hlast, ?_⟩
                      · simpa [hupdate] using hwrites
                      · simp [hupdate, updateCheckpointAfterRelease, hstream, hlast]
                  · simp [updateCheckpointAfterRelease, hstream]
                · simp [hupdate]

end ReleaseCall

end Quarantine
