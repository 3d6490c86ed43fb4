import DataRelay.Lib.Json

/-! One route delivery: primary send, Active/Standby failover, failure policy and replay
recording. A call returns its outcome and the ordered list of its effects; the answers of
limiters, adapters and the binding query are part of the call's input. -/
namespace Delivery

/-- An event is a dictionary. -/
abbrev Event := Json.Members

abbrev LogPayload := Json.Members

/-- The exception classes the eligibility checks tell apart. -/
inductive ErrorKind where
  | aiPolicyEnforcement
  | destinationSend
  | osError
  | httpTimeout
  | other
  deriving DecidableEq, Repr

/-- An exception of an adapter; `httpStatus` is what `_http_status_from_error` finds on it. -/
structure SendError where
  kind : ErrorKind
  typeName : String
  httpStatus : Option ℤ
  message : String
  deriving DecidableEq, Repr

def isFailoverEligibleError (error : SendError) : Bool :=
  if error.kind = .aiPolicyEnforcement then false
  else
    match error.httpStatus with
    | some status => if status = 429 then false else decide (500 ≤ status ∧ status < 600)
    | none =>
      match error.kind with
      | .destinationSend | .osError | .httpTimeout => true
      | _ => false

def isReplayRecordEligible (error : Option SendError) (rateLimited : Bool) : Bool :=
  if rateLimited then false
  else
    match error with
    | none => true
    | some e => if e.kind = .aiPolicyEnforcement then false else e.httpStatus != some 429

inductive FailurePolicy where
  | logAndContinue
  | pauseStreamOnFailure
  | disableRouteOnFailure
  | retryAndBackoff
  | unknown (name : String)
  deriving DecidableEq, Repr

def FailurePolicy.name : FailurePolicy → String
  | .logAndContinue => "LOG_AND_CONTINUE"
  | .pauseStreamOnFailure => "PAUSE_STREAM_ON_FAILURE"
  | .disableRouteOnFailure => "DISABLE_ROUTE_ON_FAILURE"
  | .retryAndBackoff => "RETRY_AND_BACKOFF"
  | .unknown name => name

structure Destination where
  id : Option ℤ := none
  name : String := ""
  destinationType : String := ""
  enabled : Bool := true
  deriving DecidableEq, Repr

structure Route where
  id : ℤ
  enabled : Bool := true
  destination : Destination := {}
  failurePolicy : FailurePolicy := .logAndContinue
  retryCount : ℤ := 2
  formatterConfigJson : Json := .null
  deriving DecidableEq, Repr

structure FailoverRouteBinding where
  failoverRouteId : ℤ
  secondaryDestinationId : ℤ
  secondaryDestinationType : String
  secondaryDestinationName : String
  secondaryDestinationEnabled : Bool
  deriving DecidableEq, Repr

/-- Failover bindings keyed by the primary destination. -/
abbrev FailoverBindings := List (ℤ × FailoverRouteBinding)

structure StreamRunOptions where
  persistCheckpoint : Bool := true
  dryRun : Bool := false
  replayStart : Option ℤ := none
  replayEnd : Option ℤ := none
  applyDedup : Bool := true
  deriving DecidableEq, Repr

structure StreamRef where
  id : ℤ
  name : String := ""
  deriving DecidableEq, Repr

structure MessagePrefixContext where
  streamName : String
  streamId : ℤ
  destinationName : String
  destinationType : String
  routeId : ℤ
  deriving DecidableEq, Repr

inductive DeliveryKind where
  | baseRoute
  | failoverSecondary
  | dynamicRoute
  deriving DecidableEq, Repr

structure DeliveryContext where
  destinationType : String
  formatterOverride : Option Json.Members
  prefixContext : MessagePrefixContext
  deriving DecidableEq

/-- A pending row of the replay table. -/
structure StreamReplayEvent where
  streamId : ℤ
  destinationId : ℤ
  routeId : Option ℤ
  dynamicRouteId : Option ℤ
  failoverRouteId : Option ℤ
  deliveryKind : DeliveryKind
  protectedPayload : List Event
  deliveryContext : DeliveryContext
  errorType : Option String
  errorMessage : Option String
  deriving DecidableEq

/-- Which send of a route delivery an attempt was. -/
inductive SendTarget where
  | primary
  | resend (idx : ℕ)
  | secondary
  | dynamicRoute (id : ℤ)
  deriving DecidableEq, Repr

/-- One `_send_to_destination` call and whether it returned without raising. -/
structure SendAttempt where
  target : SendTarget
  destinationId : Option ℤ
  events : List Event
  returned : Bool
  deriving DecidableEq

/-- The arguments of `record_dedup_registry_for_route_success`. -/
structure RegistryRecord where
  routeEvents : List Event
  destination : Option String
  destinationId : Option ℤ
  routeId : ℤ
  deriving DecidableEq

inductive Effect where
  | log (payload : LogPayload)
  | send (attempt : SendAttempt)
  | recordRegistry (record : RegistryRecord)
  | recordReplay (row : StreamReplayEvent)
  | setStreamStatus (status : String)
  | disableRoute (routeId : ℤ)
  deriving DecidableEq

@[simp] def Effect.attempt? : Effect → Option SendAttempt
  | .send a => some a
  | _ => none

@[simp] def Effect.replayRow? : Effect → Option StreamReplayEvent
  | .recordReplay r => some r
  | _ => none

def attempts (es : List Effect) : List SendAttempt := es.filterMap Effect.attempt?

def replayRows (es : List Effect) : List StreamReplayEvent := es.filterMap Effect.replayRow?

theorem filterMap_cons_toList {α β : Type} (f : α → Option β) (a : α) (as : List α) :
    (a :: as).filterMap f = (f a).toList ++ as.filterMap f := by
  cases h : f a <;> simp [h]

@[simp] theorem attempts_nil : attempts [] = [] := rfl

@[simp] theorem attempts_cons (e : Effect) (es : List Effect) :
    attempts (e :: es) = e.attempt?.toList ++ attempts es := filterMap_cons_toList ..

@[simp] theorem attempts_append (es fs : List Effect) :
    attempts (es ++ fs) = attempts es ++ attempts fs := List.filterMap_append

@[simp] theorem replayRows_nil : replayRows [] = [] := rfl

@[simp] theorem replayRows_cons (e : Effect) (es : List Effect) :
    replayRows (e :: es) = e.replayRow?.toList ++ replayRows es := filterMap_cons_toList ..

@[simp] theorem replayRows_append (es fs : List Effect) :
    replayRows (es ++ fs) = replayRows es ++ replayRows fs := List.filterMap_append

structure RouteSendOutcome where
  success : Bool
  latencyMs : ℕ
  adapterStage : Option String := none
  error : Option String := none
  rateLimited : Bool := false
  destinationDisabled : Bool := false
  failureAbsorbed : Bool := false
  primarySendFailed : Bool := false
  failoverAttempted : Bool := false
  failoverSucceeded : Bool := false
  failoverSecondarySendAttempted : Bool := false
  deriving DecidableEq, Repr

structure FailoverAttemptResult where
  attempted : Bool := false
  succeeded : Bool := false
  secondarySendAttempted : Bool := false
  secondaryError : Option SendError := none
  deriving DecidableEq, Repr

/-- What one adapter call does: it returns, or it raises `error`. -/
structure SendResult where
  latencyMs : ℕ := 0
  error : Option SendError := none
  deriving DecidableEq, Repr

/-- The answers the surroundings give to one delivery. `loadedBindings` is `none` when the
binding query raises. The two `…RowStored` fields say whether the replay row of the exhausted
retries, and that of the end of the failure path, is inserted and committed. -/
structure SendWorld where
  limiterAllows : Bool := true
  loadedBindings : Option FailoverBindings := some []
  secondaryLimiterAllows : Bool := true
  primary : SendResult := {}
  secondary : SendResult := {}
  resend : ℕ → SendResult := fun _ => {}
  retryRowStored : Bool := true
  failureRowStored : Bool := true

/-- All inputs of one `_send_route_events` call. -/
structure SendCall where
  stream : StreamRef
  route : Route
  routeEvents : List Event
  failoverBindings : Option FailoverBindings := none
  recordReplayOnFailure : Bool := false
  runOpts : StreamRunOptions := {}
  world : SendWorld := {}

def maxReplayEvents : ℕ := 500

def optInt : Option ℤ → Json
  | some i => .int i
  | none => .null

def optStr : Option String → Json
  | some s => .str s
  | none => .null

/-- `copy_events(events, limit=_MAX_REPLAY_EVENTS)`. -/
def snapshotEvents (events : List Event) : List Event := events.take maxReplayEvents

def formatterOverride (formatterConfig : Json) : Option Json.Members :=
  match formatterConfig with
  | .obj (m :: ms) => some (m :: ms)
  | _ => none

def prefixDeliveryContext (stream : StreamRef) (route : Route) : MessagePrefixContext where
  streamName := stream.name
  streamId := stream.id
  destinationName := route.destination.name
  destinationType := route.destination.destinationType
  routeId := route.id

/-- `record_stream_replay_event`: `none` when no row is written. An exception of the insert, or
of the commit of the caller's session, is logged and swallowed. -/
def recordStreamReplayEvent (streamId destinationId : ℤ) (deliveryKind : DeliveryKind)
    (events : List Event) (context : DeliveryContext) (error : Option SendError)
    (rateLimited : Bool) (routeId dynamicRouteId failoverRouteId : Option ℤ) (stored : Bool) :
    Option StreamReplayEvent :=
  if events.isEmpty then none
  else if !isReplayRecordEligible error rateLimited then none
  else
    let payload := snapshotEvents events
    if payload.isEmpty then none
    else if !stored then none
    else
      some {
        streamId, destinationId, routeId, dynamicRouteId, failoverRouteId, deliveryKind
        protectedPayload := payload
        deliveryContext := context
        errorType := error.map (·.typeName)
        errorMessage := error.map fun e => String.ofList (e.message.toList.take 2000) }

namespace SendCall

variable (c : SendCall)

/-- `_maybe_record_replay_event` for a base route or a failover secondary. -/
def maybeRecordReplayEvent (destinationId : ℤ) (destinationType : String)
    (prefixContext : MessagePrefixContext) (deliveryKind : DeliveryKind)
    (error : Option SendError) (failoverRouteId : Option ℤ) (stored : Bool) : List Effect :=
  if c.runOpts.dryRun then []
  else if c.runOpts.replayStart.isSome || c.runOpts.replayEnd.isSome then []
  else if c.routeEvents.isEmpty || decide (destinationId ≤ 0) then []
  else if error.any (·.kind = .aiPolicyEnforcement) then []
  else
    ((recordStreamReplayEvent c.stream.id destinationId deliveryKind c.routeEvents
      ⟨destinationType.toUpper, formatterOverride c.route.formatterConfigJson, prefixContext⟩
      error false (if c.route.id = 0 then none else some c.route.id) none
      failoverRouteId stored).map Effect.recordReplay).toList

def logRateLimited : LogPayload :=
  [("stage", .str "destination_rate_limited"), ("stream_id", .int c.stream.id),
   ("route_id", .int c.route.id), ("destination_id", optInt c.route.destination.id),
   ("message", .str "destination rate limited")]

def logSendSuccess (latencyMs : ℕ) : LogPayload :=
  [("stage", .str "route_send_success"), ("stream_id", .int c.stream.id),
   ("route_id", .int c.route.id), ("destination_id", optInt c.route.destination.id),
   ("destination_type", .str c.route.destination.destinationType.toUpper),
   ("event_count", .int c.routeEvents.length),
   ("first_event_keys_preview",
     .arr (((c.routeEvents.headD []).take 24).map fun m => .str m.1)),
   ("latency_ms", .int latencyMs)]

def logSendFailed (error : SendError) (latencyMs : ℕ) : LogPayload :=
  [("stage", .str "route_send_failed"), ("stream_id", .int c.stream.id),
   ("route_id", .int c.route.id), ("destination_id", optInt c.route.destination.id),
   ("destination_type", .str c.route.destination.destinationType.toUpper),
   ("failure_policy", .str c.route.failurePolicy.name), ("error_type", .str error.typeName),
   ("message", .str error.message), ("latency_ms", .int latencyMs),
   ("event_count", .int c.routeEvents.length)]

def logFailoverAttempt (primaryId : ℤ) (b : FailoverRouteBinding) (extra : LogPayload) :
    LogPayload :=
  [("stage", .str "failover_route_attempt"), ("stream_id", .int c.stream.id),
   ("failover_route_id", .int b.failoverRouteId), ("route_id", .int c.route.id),
   ("primary_destination_id", .int primaryId),
   ("secondary_destination_id", .int b.secondaryDestinationId)] ++ extra

def logFailoverSend (stage : String) (primaryId : ℤ) (b : FailoverRouteBinding)
    (extra : LogPayload) : LogPayload :=
  [("stage", .str stage), ("stream_id", .int c.stream.id),
   ("failover_route_id", .int b.failoverRouteId), ("route_id", .int c.route.id),
   ("primary_destination_id", .int primaryId),
   ("secondary_destination_id", .int b.secondaryDestinationId)] ++ extra

def logRetrySuccess (idx latencyMs : ℕ) : LogPayload :=
  [("stage", .str "route_retry_success"), ("stream_id", .int c.stream.id),
   ("route_id", .int c.route.id), ("attempt", .int (idx + 1)), ("retry_count", .int (idx + 1)),
   ("latency_ms", .int latencyMs)]

def logRetryFailed (lastExc : Option SendError) : LogPayload :=
  [("stage", .str "route_retry_failed"), ("stream_id", .int c.stream.id),
   ("route_id", .int c.route.id), ("retry_count", .int c.route.retryCount),
   ("error_type", optStr (lastExc.map (·.typeName))),
   ("message", .str ((lastExc.map (·.message)).getD "retry failed")),
   ("replay_events", .arr ((snapshotEvents c.routeEvents).map .obj)),
   ("event_count", .int c.routeEvents.length)]

def logUnknownPolicy : LogPayload :=
  [("stage", .str "route_unknown_failure_policy"), ("stream_id", .int c.stream.id),
   ("route_id", .int c.route.id), ("failure_policy", .str c.route.failurePolicy.name)]

def registryRecord : RegistryRecord where
  routeEvents := c.routeEvents
  destination :=
    if c.route.destination.destinationType.toUpper.isEmpty then none
    else some c.route.destination.destinationType.toUpper
  destinationId := c.route.destination.id
  routeId := c.route.id

/-- `_attempt_failover_send`. -/
def attemptFailoverSend (primaryId : ℤ) (bindings : FailoverBindings) (error : SendError)
    (latencyMs : ℕ) : FailoverAttemptResult × List Effect :=
  if !isFailoverEligibleError error then ({}, [])
  else
    match bindings.lookup primaryId with
    | none => ({}, [])
    | some b =>
      if !b.secondaryDestinationEnabled then
        ({ attempted := true },
          [.log (c.logFailoverAttempt primaryId b
            [("skip_reason", .str "secondary_destination_disabled"),
             ("primary_latency_ms", .int latencyMs), ("error_type", .str error.typeName),
             ("message", .str error.message)])])
      else if !c.world.secondaryLimiterAllows then
        ({ attempted := true },
          [.log (c.logFailoverAttempt primaryId b
            [("skip_reason", .str "secondary_rate_limited"),
             ("primary_latency_ms", .int latencyMs)])])
      else
        let started : List Effect :=
          [.log (c.logFailoverAttempt primaryId b
            [("primary_latency_ms", .int latencyMs), ("error_type", .str error.typeName),
             ("message", .str error.message)])]
        match c.world.secondary.error with
        | none =>
          ({ attempted := true, succeeded := true, secondarySendAttempted := true },
            started ++
              [.send ⟨.secondary, some b.secondaryDestinationId, c.routeEvents, true⟩,
               .log (c.logFailoverSend "failover_route_send_success" primaryId b
                [("event_count", .int c.routeEvents.length),
                 ("latency_ms", .int c.world.secondary.latencyMs)])])
        | some e =>
          ({ attempted := true, secondarySendAttempted := true, secondaryError := some e },
            started ++
              [.send ⟨.secondary, some b.secondaryDestinationId, c.routeEvents, false⟩,
               .log (c.logFailoverSend "failover_route_send_failed" primaryId b
                [("error_type", .str e.typeName), ("message", .str e.message),
                 ("latency_ms", .int c.world.secondary.latencyMs)])])

/-- The `for idx in range(retry_count)` loop of `RETRY_AND_BACKOFF`: whether a resend
returned, and the last exception when none did. -/
def retryLoop : (remaining idx : ℕ) → (lastExc : Option SendError) →
    (Bool × Option SendError) × List Effect
  | 0, _, lastExc => ((false, lastExc), [])
  | n + 1, idx, _ =>
    match (c.world.resend idx).error with
    | none =>
      ((true, none),
        [.send ⟨.resend idx, c.route.destination.id, c.routeEvents, true⟩,
         .log (c.logRetrySuccess idx (c.world.resend idx).latencyMs),
         .recordRegistry c.registryRecord])
    | some e =>
      let rest := retryLoop n (idx + 1) (some e)
      (rest.1, .send ⟨.resend idx, c.route.destination.id, c.routeEvents, false⟩ :: rest.2)

/-- `_apply_failure_policy` with `emit_failure_log=False`. -/
def applyFailurePolicy : Bool × List Effect :=
  match c.route.failurePolicy with
  | .logAndContinue => (true, [])
  | .pauseStreamOnFailure => (false, [.setStreamStatus "PAUSED"])
  | .disableRouteOnFailure => (false, [.disableRoute c.route.id])
  | .retryAndBackoff =>
    if c.routeEvents.isEmpty then (false, [])
    else
      match c.retryLoop c.route.retryCount.toNat 0 none with
      | ((true, _), es) => (true, es)
      | ((false, lastExc), es) =>
        (false, es ++ [.log (c.logRetryFailed lastExc)] ++
          match c.route.destination.id with
          | some destId =>
            c.maybeRecordReplayEvent destId c.route.destination.destinationType.toUpper
              (prefixDeliveryContext c.stream c.route) .baseRoute lastExc none
              c.world.retryRowStored
          | none => [])
  | .unknown _ => (false, [.log c.logUnknownPolicy])

/-- The failover bindings in force once the primary send has failed. -/
def bindingsInForce : Option FailoverBindings :=
  match c.route.destination.id with
  | none => c.failoverBindings
  | some _ => some (c.failoverBindings.getD (c.world.loadedBindings.getD []))

/-- The failover attempt, made only for a destination with an id. -/
def failover (error : SendError) : FailoverAttemptResult × List Effect :=
  match c.route.destination.id, c.bindingsInForce with
  | some d, some bindings => c.attemptFailoverSend d bindings error c.world.primary.latencyMs
  | _, _ => ({}, [])

/-- The replay recording at the end of the failure path. -/
def recordFailure (fo : FailoverAttemptResult) (error : SendError) : List Effect :=
  match c.recordReplayOnFailure, c.bindingsInForce with
  | true, some bindings =>
    match c.route.destination.id with
    | none => []
    | some d =>
      match fo.secondarySendAttempted && !fo.succeeded, bindings.lookup d with
      | true, some b =>
        c.maybeRecordReplayEvent b.secondaryDestinationId b.secondaryDestinationType
          ⟨c.stream.name, c.stream.id, b.secondaryDestinationName, b.secondaryDestinationType,
            c.route.id⟩
          .failoverSecondary fo.secondaryError (some b.failoverRouteId) c.world.failureRowStored
      | _, _ =>
        if !fo.succeeded && !fo.secondarySendAttempted then
          c.maybeRecordReplayEvent d c.route.destination.destinationType.toUpper
            (prefixDeliveryContext c.stream c.route) .baseRoute (some error) none
            c.world.failureRowStored
        else []
  | _, _ => []

/-- The outcome chosen from the `recovered` flag. -/
def failureOutcome (recovered : Bool) (fo : FailoverAttemptResult) (error : SendError) :
    RouteSendOutcome :=
  if recovered && fo.attempted && fo.succeeded then
    { success := true, latencyMs := c.world.primary.latencyMs
      adapterStage := some "failover_route_send_success", primarySendFailed := true
      failoverAttempted := true, failoverSucceeded := true
      failoverSecondarySendAttempted := fo.secondarySendAttempted }
  else if recovered && c.route.failurePolicy = .logAndContinue then
    { success := false, latencyMs := c.world.primary.latencyMs
      adapterStage := some "route_send_failed", error := some error.message
      failureAbsorbed := true, primarySendFailed := true, failoverAttempted := fo.attempted
      failoverSecondarySendAttempted := fo.secondarySendAttempted }
  else if recovered then
    { success := true, latencyMs := c.world.primary.latencyMs
      adapterStage := some "route_send_success", primarySendFailed := true
      failoverAttempted := fo.attempted
      failoverSecondarySendAttempted := fo.secondarySendAttempted }
  else
    { success := false, latencyMs := c.world.primary.latencyMs
      adapterStage := some "route_send_failed", error := some error.message
      primarySendFailed := true, failoverAttempted := fo.attempted
      failoverSecondarySendAttempted := fo.secondarySendAttempted }

/-- The `except` block of `_send_route_events`. -/
def afterPrimaryFailure (error : SendError) : RouteSendOutcome × List Effect :=
  let fo := c.failover error
  let policy :=
    if fo.1.attempted && fo.1.succeeded then (true, []) else c.applyFailurePolicy
  -- a failed failover attempt overrides what the failure policy answered
  let recovered := if fo.1.attempted && !fo.1.succeeded then false else policy.1
  (c.failureOutcome recovered fo.1 error,
    .log (c.logSendFailed error c.world.primary.latencyMs) ::
      (fo.2 ++ policy.2 ++ c.recordFailure fo.1 error))

/-- `_send_route_events`. -/
def sendRouteEvents : RouteSendOutcome × List Effect :=
  if !c.route.destination.enabled then
    ({ success := false, latencyMs := 0, destinationDisabled := true
       adapterStage := some "route_skip", error := some "destination disabled" }, [])
  else if !c.world.limiterAllows then
    ({ success := false, latencyMs := 0, rateLimited := true
       adapterStage := some "destination_rate_limited"
       error := some "destination rate limited" },
      [.setStreamStatus "RATE_LIMITED_DESTINATION", .log c.logRateLimited])
  else
    match c.world.primary.error with
    | none =>
      ({ success := true, latencyMs := c.world.primary.latencyMs
         adapterStage := some "route_send_success" },
        [.send ⟨.primary, c.route.destination.id, c.routeEvents, true⟩,
         .log (c.logSendSuccess c.world.primary.latencyMs),
         .recordRegistry c.registryRecord])
    | some error =>
      let after := c.afterPrimaryFailure error
      (after.1, .send ⟨.primary, c.route.destination.id, c.routeEvents, false⟩ :: after.2)

end SendCall

end Delivery
