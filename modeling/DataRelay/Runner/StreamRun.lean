import DataRelay.Runner.RouteStage
import DataRelay.Dedup.Registry

/-! One `StreamRunner.run`: collect, dedup, per-route pipeline, dynamic routes, checkpoint
staging and the single flush at the end. Writes to the database wait in `Pending`; sends
and replay rows happen at once and are only traced. -/
namespace Runner
open Delivery Dedup

/-- The log stages that become delivery-log rows. -/
def persistedStages : List String :=
  ["run_started", "run_failed", "source_fetch", "parse", "mapping", "enrichment",
   "classification_complete", "protection_complete", "policy_evaluation_complete",
   "policy_complete", "policy_blocked", "policy_quarantine", "policy_review_required",
   "ai_policy_prompt", "ai_policy_response", "dynamic_routing_complete",
   "dynamic_route_send_success", "dynamic_route_send_failed", "dynamic_route_send_skip",
   "dynamic_route_send_rate_limited", "dynamic_route_skip", "dynamic_route_rate_limited",
   "failover_routing_complete", "failover_route_attempt", "failover_route_send_success",
   "failover_route_send_failed", "route", "route_send_success", "route_send_failed",
   "route_retry_success", "route_retry_failed", "source_rate_limited",
   "destination_rate_limited", "route_skip", "route_unknown_failure_policy",
   "route_processing_loop", "checkpoint_update", "run_complete", "dedup_queue_insert",
   "dedup_registry", "schema_drift_policy", "schema_drift_policy_review_required",
   "schema_drift_policy_path_resolution_failed", "schema_drift_policy_auto_protect_applied"]

def isPersisted (payload : LogPayload) : Bool :=
  match Dict.get? "stage" payload with
  | some (.str stage) => decide (stage ∈ persistedStages)
  | _ => false

structure CheckpointUpdate where
  streamId : ℤ
  checkpointValue : Json.Members
  deriving DecidableEq

/-- What the run has buffered for its final transaction. -/
structure Pending where
  logPayloads : List LogPayload := []
  streamStatus : Option String := none
  disabledRoutes : List ℤ := []
  checkpoint : Option CheckpointUpdate := none
  dedupSummary : Option DedupSummary := none
  deriving DecidableEq

namespace Pending

/-- `_log`: only payloads of a known stage are buffered. -/
def log (p : Pending) (payload : LogPayload) : Pending :=
  if isPersisted payload then { p with logPayloads := p.logPayloads ++ [payload] } else p

def logs (p : Pending) (payloads : List LogPayload) : Pending := payloads.foldl log p

def apply (streamId : ℤ) (p : Pending) : Effect → Pending
  | .log payload => p.log payload
  | .setStreamStatus status => { p with streamStatus := some status }
  | .disableRoute id =>
    if id ∈ p.disabledRoutes then p else { p with disabledRoutes := p.disabledRoutes ++ [id] }
  | .recordRegistry record =>
    match p.dedupSummary with
    | none => p
    | some summary =>
      let out := recordDedupRegistryForRouteSuccess streamId record summary
      ({ p with dedupSummary := some out.1 } : Pending).logs out.2
  | .send _ => p
  | .recordReplay _ => p

def applyAll (streamId : ℤ) (p : Pending) (effects : List Effect) : Pending :=
  effects.foldl (apply streamId) p

end Pending

/-- A dynamic route that matched, with the answers its send gets. -/
structure DynamicRouteMatch where
  dynamicRouteId : ℤ
  destinationId : ℤ
  destinationType : String := ""
  destinationName : String := ""
  destinationEnabled : Bool := true
  limiterAllows : Bool := true
  result : SendResult := {}
  replayRowStored : Bool := true
  deriving DecidableEq

/-- The request session `run` is handed; scheduler runs have none. `commitsAfterError` says
whether the caller commits it after a run that raised. -/
structure RequestSession where
  commitsAfterError : Bool := false
  deriving DecidableEq, Repr

/-- All inputs of one run. The `…Error` fields say whether a stage raises. -/
structure RunInput where
  stream : RunStream
  session : Option RequestSession := none
  runOpts : StreamRunOptions := {}
  lockAcquired : Bool := true
  entryError : Option RunError := none
  sourceAllows : Bool := true
  fetched : Except RunError (List Event)
  dedupConfig : StreamDedupConfig := {}
  extractOne : Event → String → Option Json := fun _ _ => none
  now : ℤ := 0
  checkpointUpdatedAt : Option ℤ := none
  sharedPhaseError : Option RunError := none
  /-- `evaluate_dynamic_routes_for_delivery`; `none` when it raises. -/
  dynamicRoutes : List Event → Option (List DynamicRouteMatch) := fun _ => some []
  loadedBindings : Option FailoverBindings := some []
  fanOutError : Option RunError := none
  cursorValue : Event → Option Json := fun _ => none
  checkpointError : Option RunError := none
  finishError : Option RunError := none
  flushError : Option RunError := none

def truthy : Json → Bool
  | .null => false
  | .bool b => b
  | .int i => i ≠ 0
  | .float repr => repr ≠ "0.0" ∧ repr ≠ "-0.0"
  | .str s => !s.isEmpty
  | .arr xs => !xs.isEmpty
  | .obj ms => !ms.isEmpty

/-- `d.get(k)` with `None` for a missing member. -/
def getOrNull (k : String) (event : Event) : Json := (Dict.get? k event).getD .null

def setUnlessNone (k : String) (v : Json) (ms : Json.Members) : Json.Members :=
  if v = .null then ms else Dict.set k v ms

def setDefault (k : String) (v : Json) (ms : Json.Members) : Json.Members :=
  if Dict.has k ms then ms else Dict.set k v ms

/-- The checkpoint value `_update_checkpoint_after_success` derives from the last event. -/
def checkpointValue (cursorValue : Event → Option Json) (last : Event) : Json.Members :=
  let orElse (a b : String) : Json :=
    if truthy (getOrNull a last) then getOrNull a last else getOrNull b last
  let path := orElse "remote_path" "gdc_remote_path"
  let mtime := orElse "remote_mtime" "gdc_remote_mtime"
  let size :=
    if getOrNull "remote_size" last = .null then getOrNull "gdc_remote_size" last
    else getOrNull "remote_size" last
  let value := [("last_success_event", Json.obj last)]
    |> setUnlessNone "last_processed_key" (getOrNull "s3_key" last)
    |> setUnlessNone "last_processed_last_modified" (getOrNull "s3_last_modified" last)
    |> setUnlessNone "last_processed_etag" (getOrNull "s3_etag" last)
    |> setUnlessNone "last_processed_db_watermark" (getOrNull "gdc_db_watermark" last)
    |> setUnlessNone "last_processed_db_order" (getOrNull "gdc_db_order_value" last)
    |> setUnlessNone "last_processed_key" path
    |> setUnlessNone "last_processed_file" path
    |> setUnlessNone "last_processed_last_modified" mtime
    |> setUnlessNone "last_processed_mtime" mtime
    |> setUnlessNone "last_processed_size" size
    |> setUnlessNone "last_processed_offset" (getOrNull "gdc_remote_offset" last)
    |> setUnlessNone "last_processed_hash" (getOrNull "gdc_remote_hash" last)
  match cursorValue last with
  | none => value
  | some cursor =>
    ["cursor", "value", "last_seen", "next_cursor", "last_timestamp", "last_timestamp_ms"].foldl
      (fun ms k => setDefault k cursor ms) value

/-- The batch of a run: what dedup lets through of the fetched events, and the queue when
dedup ran. Without a session no key of an earlier run is loaded. -/
def RunInput.collect (r : RunInput) (rows : List DeliveryLogRow) (fetched : List Event) :
    List Event × Option StreamDedupQueue :=
  applyStreamDedup r.extractOne r.dedupConfig r.runOpts.applyDedup
    (if r.session.isNone then []
      else loadDedupSeedKeys r.dedupConfig r.now r.checkpointUpdatedAt rows) fetched

namespace RunInput

variable (r : RunInput)

/-- The destinations dynamic routes must not repeat: those of the base routes and the
failover secondaries. -/
def baseDestinationIds : List ℤ :=
  r.stream.routes.filterMap (·.row.destination.id) ++
    (r.loadedBindings.getD []).map (·.2.secondaryDestinationId)

def dynamicLog (stage : String) (m : DynamicRouteMatch) (extra : LogPayload) : Effect :=
  .log ([("stage", .str stage), ("stream_id", .int r.stream.ref.id),
    ("dynamic_route_id", .int m.dynamicRouteId), ("destination_id", .int m.destinationId)] ++
    extra)

/-- `_maybe_record_replay_event` for a dynamic route. -/
def recordDynamicReplay (m : DynamicRouteMatch) (events : List Event) (error : SendError) :
    List Effect :=
  if r.runOpts.dryRun then []
  else if r.runOpts.replayStart.isSome || r.runOpts.replayEnd.isSome then []
  else if events.isEmpty || decide (m.destinationId ≤ 0) then []
  else if error.kind = .aiPolicyEnforcement then []
  else
    ((recordStreamReplayEvent r.stream.ref.id m.destinationId .dynamicRoute events
      ⟨m.destinationType.toUpper, none, ⟨r.stream.ref.name, r.stream.ref.id, m.destinationName,
        m.destinationType.toUpper, 0⟩⟩
      (some error) false none (some m.dynamicRouteId) none m.replayRowStored).map Effect.recordReplay).toList

/-- One turn of the loop in `_deliver_dynamic_routes`. -/
def deliverDynamicRoute (events : List Event) (m : DynamicRouteMatch) : List Effect :=
  if m.destinationId ∈ r.baseDestinationIds then
    [r.dynamicLog "dynamic_route_send_skip" m
      [("skip_reason", .str "duplicate_base_destination")]]
  else if !m.destinationEnabled then
    [r.dynamicLog "dynamic_route_send_skip" m [("skip_reason", .str "destination_disabled")]]
  else if !m.limiterAllows then [r.dynamicLog "dynamic_route_send_rate_limited" m []]
  else
    match m.result.error with
    | none =>
      [.send ⟨.dynamicRoute m.dynamicRouteId, some m.destinationId, events, true⟩,
       r.dynamicLog "dynamic_route_send_success" m
        [("destination_type", .str m.destinationType.toUpper),
         ("event_count", .int events.length), ("latency_ms", .int m.result.latencyMs)]]
    | some e =>
      [.send ⟨.dynamicRoute m.dynamicRouteId, some m.destinationId, events, false⟩,
       r.dynamicLog "dynamic_route_send_failed" m
        [("failure_policy", .str "LOG_AND_CONTINUE"), ("error_type", .str e.typeName),
         ("message", .str e.message), ("latency_ms", .int m.result.latencyMs)]] ++
        r.recordDynamicReplay m events e

/-- `_evaluate_dynamic_routes` and `_deliver_dynamic_routes` on the chosen events. -/
def deliverDynamicRoutes (events : List Event) : List Effect :=
  if events.isEmpty then []
  else ((r.dynamicRoutes events).getD []).flatMap (r.deliverDynamicRoute events)

/-- `delivery_reference_events or enriched_events`. -/
def deliveryEvents (pipeline : RoutePipelineResult) (batch : List Event) : List Event :=
  if pipeline.deliveryReferenceEvents.isEmpty then batch else pipeline.deliveryReferenceEvents

/-- `checkpoint_reference_events or enriched_events`. -/
def checkpointEvents (pipeline : RoutePipelineResult) (batch : List Event) : List Event :=
  if pipeline.checkpointReferenceEvents.isEmpty then batch else pipeline.checkpointReferenceEvents

def runCompletePayload (inputEvents successEvents : ℕ) (checkpointUpdated partialSuccess
    retryPending : Bool) (updateReason : String) : LogPayload :=
  [("stage", .str "run_complete"), ("stream_id", .int r.stream.ref.id),
   ("input_events", .int inputEvents), ("success_events", .int successEvents),
   ("delivered_event_count", .int successEvents), ("checkpoint_updated", .bool checkpointUpdated),
   ("processed_events", .int inputEvents), ("delivered_events", .int successEvents),
   ("failed_events", .int ((inputEvents - successEvents : ℕ) : ℤ)),
   ("partial_success", .bool partialSuccess), ("update_reason", .str updateReason),
   ("retry_pending", .bool retryPending)]

def checkpointUpdatePayload (outcome : FanOutOutcome) (inputEvents : ℕ) (partialSuccess : Bool) :
    LogPayload :=
  let ids (kind : String) (name : String) (xs : List ℤ) : Json :=
    .arr (xs.map fun i => .obj [("route_id", .int i), (kind, .str name)])
  [("stage", .str "checkpoint_update"), ("stream_id", .int r.stream.ref.id),
   ("message", .str "checkpoint updated after successful destination delivery"),
   ("processed_events", .int inputEvents),
   ("delivered_events", .int outcome.successfulEvents.length),
   ("failed_events", .int ((inputEvents - outcome.successfulEvents.length : ℕ) : ℤ)),
   ("partial_success", .bool partialSuccess),
   ("update_reason", .str (if outcome.logContinueFailedRouteIds ≠ [] ∨
      outcome.policyWithheldRouteIds ≠ [] then "partial_delivery_success"
      else "full_delivery_success")),
   ("correlated_route_failures",
     ids "failure_kind" "log_and_continue_absorbed" outcome.logContinueFailedRouteIds),
   ("correlated_policy_withheld_routes",
     ids "outcome_kind" "policy_withheld" outcome.policyWithheldRouteIds)]

/-- The rows logged while the batch is collected. -/
def collectLogs (fetched : List Event) (queue : Option StreamDedupQueue) : List Effect :=
  [.log [("stage", .str "source_fetch"), ("stream_id", .int r.stream.ref.id),
     ("message", .str "source fetch completed")],
   .log [("stage", .str "parse"), ("stream_id", .int r.stream.ref.id),
     ("message", .str "events extracted"), ("extracted_event_count", .int fetched.length)]] ++
    (queue.map fun q => Effect.log ([("stage", .str "dedup_queue_insert"),
      ("stream_id", .int r.stream.ref.id), ("message", .str "stream dedup applied")] ++
        q.summary.toDict)).toList

def routeProcessingLog (pipeline : RoutePipelineResult) : Effect :=
  .log [("stage", .str "route_processing_loop"), ("stream_id", .int r.stream.ref.id),
    ("message", .str "route processing pipeline complete"),
    ("route_count", .int r.stream.routes.length),
    ("routes_processed", .int pipeline.stageResults.length)]

end RunInput

inductive RunOutcome where
  | skippedLock
  | sourceRateLimited
  | noEvents
  | dryRun
  | completed
  deriving DecidableEq, Repr

/-- Where the body of `run` stands: its buffer, everything it sent, and the queue and
pipeline it got to. -/
structure RunState where
  pending : Pending := {}
  effects : List Effect := []
  queue : Option StreamDedupQueue := none
  pipeline : Option RoutePipelineResult := none

def RunState.perform (st : RunState) (streamId : ℤ) (es : List Effect) : RunState :=
  { st with pending := st.pending.applyAll streamId es, effects := st.effects ++ es }

def RunState.log (st : RunState) (payload : LogPayload) : RunState :=
  { st with pending := st.pending.log payload }

namespace RunInput

variable (r : RunInput)

/-- Checkpoint staging and the end of the delivery branch. -/
def finishDelivery (batch : List Event) (pipeline : RoutePipelineResult) (st : RunState) :
    RunState × Except RunError RunOutcome :=
  let outcome := routeDeliveryFanOutOutcome pipeline (checkpointEvents pipeline batch)
  let successful := outcome.successfulEvents
  let partialSuccess := !successful.isEmpty && (!outcome.logContinueFailedRouteIds.isEmpty ||
    !outcome.policyWithheldRouteIds.isEmpty || decide (successful.length < batch.length))
  let staging := !successful.isEmpty && r.runOpts.persistCheckpoint
  match if staging then r.checkpointError else none with
  | some e => (st, .error e)
  | none =>
    let pending :=
      if staging then
        { st.pending with checkpoint := some ⟨r.stream.ref.id,
            checkpointValue r.cursorValue ((checkpointEvents pipeline batch).getLastD [])⟩ }.log
          (r.checkpointUpdatePayload outcome batch.length partialSuccess)
      else st.pending
    match r.finishError with
    | some e => ({ st with pending }, .error e)
    | none =>
      let reason :=
        if successful.isEmpty then "skipped_due_to_failure"
        else if partialSuccess then "partial_delivery_success" else "full_delivery_success"
      (({ st with pending } : RunState).log (r.runCompletePayload batch.length successful.length
        staging partialSuccess (!batch.isEmpty && successful.isEmpty) reason), .ok .completed)

/-- The delivery branch: shared phase, route pipeline, fan-out. -/
def deliverBatch (batch : List Event) (st : RunState) : RunState × Except RunError RunOutcome :=
  match r.sharedPhaseError with
  | some e => (st, .error e)
  | none =>
    let out := r.stream.processRoutes r.runOpts batch r.stream.routes {} {}
    let st := { (st.perform r.stream.ref.id out.1.effects) with pipeline := some out.1 }
    match out.2 with
    | some e => (st, .error e)
    | none =>
      let st := st.perform r.stream.ref.id
        (r.routeProcessingLog out.1 :: r.deliverDynamicRoutes (deliveryEvents out.1 batch))
      match r.fanOutError with
      | some e => (st, .error e)
      | none => r.finishDelivery batch out.1 st

/-- The state once the batch is collected. -/
def collectedState (fetched : List Event) (queue : Option StreamDedupQueue) : RunState :=
  ({ queue, pending := { dedupSummary := queue.map (·.summary) } } : RunState).perform
    r.stream.ref.id (r.collectLogs fetched queue)

/-- The `try` body of `run`, from the lifecycle entry on. -/
def body (rows : List DeliveryLogRow) : RunState × Except RunError RunOutcome :=
  match r.entryError with
  | some e => ({}, .error e)
  | none =>
    if !r.sourceAllows then
      let st : RunState := ({} : RunState).perform r.stream.ref.id
        [.setStreamStatus "RATE_LIMITED_SOURCE",
         .log [("stage", .str "source_rate_limited"), ("stream_id", .int r.stream.ref.id),
           ("message", .str "source rate limited")],
         .log (r.runCompletePayload 0 0 false false false "source_rate_limited")]
      (st, .ok .sourceRateLimited)
    else
      match r.fetched with
      | .error e => ({}, .error e)
      | .ok fetched =>
        let collected := r.collect rows fetched
        let st := r.collectedState fetched collected.2
        if collected.1.isEmpty then
          (st.log (r.runCompletePayload 0 0 false false false "no_events_extracted"), .ok .noEvents)
        else if r.runOpts.dryRun then
          (st.log (r.runCompletePayload collected.1.length 0 false false false
            "dry_run_no_delivery"), .ok .dryRun)
        else r.deliverBatch collected.1 st

end RunInput

def RunState.quarantineRows (st : RunState) : List StreamQuarantineEvent :=
  (st.pipeline.map (·.quarantineRows)).getD []

/-- What a run leaves behind. `flushed` is the buffer its final transaction committed. -/
structure RunResult where
  outcome : Except RunError RunOutcome
  staged : Pending := {}
  flushed : Option Pending := none
  effects : List Effect := []
  queue : Option StreamDedupQueue := none
  pipeline : Option RoutePipelineResult := none
  quarantineRows : List StreamQuarantineEvent := []

/-- The inserted quarantine rows that are committed in the end: at once where there is no request
session, else with that session. -/
def RunInput.keptRows (r : RunInput) (committed : Bool) (st : RunState) :
    List StreamQuarantineEvent :=
  if r.session.isNone || committed then st.quarantineRows else []

/-- `StreamRunner.run`. On an exception the buffer is cleared before anything is flushed,
and a failing flush is rolled back. -/
def run (r : RunInput) (rows : List DeliveryLogRow) : RunResult :=
  if !r.lockAcquired then { outcome := .ok .skippedLock }
  else
    match r.body rows with
    | (st, .error e) =>
      { outcome := .error e, effects := st.effects, queue := st.queue, pipeline := st.pipeline
        quarantineRows := r.keptRows (r.session.any (·.commitsAfterError)) st }
    | (st, .ok outcome) =>
      { outcome := match r.flushError with
          | some e => .error e
          | none => .ok outcome
        staged := st.pending
        flushed := if r.flushError.isSome then none else some st.pending
        effects := st.effects, queue := st.queue, pipeline := st.pipeline
        quarantineRows := r.keptRows r.flushError.isNone st }

end Runner
