import DataRelay.Delivery.SendTruth
import DataRelay.RouteProtection.ResultCache

/-! The per-route pipeline of one batch and the fan-out outcome the checkpoint gate reads. The
routes of a batch share the results of their transform and protection stages; a route's
classification and policy stages enter as one function of its protected events. -/
namespace Runner
open Delivery
open RouteProtection (Engines SharedBatch RouteContext RouteTransformConfig ResultCaches RouteError
  routeStages)

inductive ErrorClass where
  | sourceFetch
  | protectionApplication
  | quarantinePersistence
  | other
  deriving DecidableEq, Repr

structure RunError where
  cls : ErrorClass
  message : String
  deriving DecidableEq, Repr

def RunError.code (e : RunError) : String :=
  match e.cls with
  | .sourceFetch => "SOURCE_FETCH_FAILED"
  | .protectionApplication => "PROTECTION_APPLICATION_FAILED"
  | .quarantinePersistence => "QUARANTINE_PERSISTENCE_FAILED"
  | .other => "RUNTIME_INTERNAL_ERROR"

inductive PolicyDecision where
  | allow
  | audit
  | block
  | requireReview
  | quarantine
  deriving DecidableEq, Repr

def deliveryAllowedForDecision : PolicyDecision → Bool
  | .allow | .audit => true
  | _ => false

/-- The exception a failing stage raises. -/
def runError : RouteError → RunError
  | .transform message => ⟨.other, message⟩
  | .protection fieldPath ruleId =>
    ⟨.protectionApplication,
      "protection action failed for " ++ (if fieldPath.isEmpty then "configured field" else fieldPath) ++
        ((ruleId.map fun id => " rule " ++ toString id).getD "") ++ "; delivery blocked"⟩
  | .unhandled message => ⟨.other, message⟩

/-- A row of `stream_quarantine_events` as the policy stage writes it. -/
structure StreamQuarantineEvent where
  streamId : ℤ
  routeId : ℤ
  quarantineReason : String
  protectedPayload : List Event
  metadata : Json.Members
  deriving DecidableEq

/-- What the classification and policy stages answer: the classified events, the decision on
them, and the quarantine row that was inserted. -/
structure PolicyAnswer where
  events : List Event
  decision : PolicyDecision
  quarantineRow : Option StreamQuarantineEvent := none
  deriving DecidableEq

/-- What a route has ready when its policy stage is done. -/
structure Prepared where
  checkpointEvents : List Event
  protectedEvents : List Event
  decision : PolicyDecision
  quarantineRow : Option StreamQuarantineEvent := none
  deriving DecidableEq

/-- The policy stage hands on no events when it withholds delivery. -/
def Prepared.events (p : Prepared) : List Event :=
  if deliveryAllowedForDecision p.decision then p.protectedEvents else []

/-- One route in one run: its row, its effective mapping, its protection rules, its
classification and policy stages and the answers its sends get. -/
structure RouteRun where
  row : Route
  transform : Option RouteTransformConfig := none
  protectionRules : List Protection.Rule := []
  policy : List Event → Except RunError PolicyAnswer := fun es => .ok ⟨es, .allow, none⟩
  world : SendWorld := {}

def RouteRun.context (r : RouteRun) : RouteContext where
  routeId := r.row.id
  enabled := r.row.enabled
  transform := r.transform
  protectionRules := r.protectionRules

inductive SkipReason where
  | routeDisabled
  | policyBlocked
  | policyReview
  | policyQuarantine
  | noEvents
  | noSendFn
  | rateLimited
  | destinationDisabled
  deriving DecidableEq, Repr

inductive DeliveryDisposition where
  | delivered
  | blocked
  | quarantined
  deriving DecidableEq, Repr

structure RouteDeliveryResult where
  routeId : ℤ
  deliveryAllowed : Bool
  deliveryDisposition : DeliveryDisposition
  deliverySuccess : Option Bool
  deliveryError : Option String := none
  skipReason : Option SkipReason := none
  eventCount : ℕ
  adapterStage : Option String := none
  failureAbsorbed : Bool := false
  failoverAttempted : Bool := false
  failoverSucceeded : Bool := false
  deriving DecidableEq, Repr

def skipReasonForDecision : PolicyDecision → Option SkipReason
  | .block => some .policyBlocked
  | .requireReview => some .policyReview
  | .quarantine => some .policyQuarantine
  | _ => none

def resolveDeliveryDisposition (decision : PolicyDecision) (sendAttempted : Bool) :
    DeliveryDisposition :=
  match decision with
  | .quarantine => .quarantined
  | .block | .requireReview => .blocked
  | _ => if sendAttempted || deliveryAllowedForDecision decision then .delivered else .blocked

/-- The delivery result of a send. -/
def resultOfOutcome (routeId : ℤ) (eventCount : ℕ) (o : RouteSendOutcome) : RouteDeliveryResult :=
  if o.rateLimited then
    { routeId, deliveryAllowed := true, deliveryDisposition := .delivered, eventCount
      deliverySuccess := none, deliveryError := some "destination rate limited"
      skipReason := some .rateLimited, adapterStage := some "destination_rate_limited" }
  else if o.destinationDisabled then
    { routeId, deliveryAllowed := true, deliveryDisposition := .delivered, eventCount
      deliverySuccess := none, deliveryError := some "destination disabled"
      skipReason := some .destinationDisabled, adapterStage := some "route_skip" }
  else
    { routeId, deliveryAllowed := true, deliveryDisposition := .delivered, eventCount
      deliverySuccess := some o.success, deliveryError := o.error
      adapterStage := o.adapterStage, failureAbsorbed := o.failureAbsorbed
      failoverAttempted := o.failoverAttempted, failoverSucceeded := o.failoverSucceeded }

/-- `route_delivery_stage`; `sendFn` is `none` when the policy withholds delivery. -/
def routeDeliveryStage (streamId routeId : ℤ) (destinationId : Option ℤ) (enabled : Bool)
    (decision : PolicyDecision) (events : List Event)
    (sendFn : Option (List Event → RouteSendOutcome × List Effect)) :
    RouteDeliveryResult × List Effect :=
  let skipLog (reason : String) : Effect :=
    .log [("stage", .str "route_skip"), ("stream_id", .int streamId), ("route_id", .int routeId),
      ("destination_id", optInt destinationId), ("skip_reason", .str reason),
      ("message", .str reason)]
  if !enabled then
    ({ routeId, deliveryAllowed := deliveryAllowedForDecision decision
       deliveryDisposition := .blocked, deliverySuccess := none
       skipReason := some .routeDisabled, eventCount := events.length },
      [skipLog "route_disabled"])
  else if !deliveryAllowedForDecision decision then
    ({ routeId, deliveryAllowed := false
       deliveryDisposition := resolveDeliveryDisposition decision false, deliverySuccess := none
       skipReason := skipReasonForDecision decision, eventCount := events.length }, [])
  else if events.isEmpty then
    ({ routeId, deliveryAllowed := true, deliveryDisposition := .delivered
       deliverySuccess := some true, skipReason := some .noEvents, eventCount := 0 }, [])
  else
    match sendFn with
    | none =>
      ({ routeId, deliveryAllowed := true, deliveryDisposition := .delivered
         deliverySuccess := some true, skipReason := some .noSendFn
         eventCount := events.length }, [])
    | some send =>
      let sent := send events
      (resultOfOutcome routeId events.length sent.1,
        if sent.1.rateLimited || !sent.1.destinationDisabled then sent.2
        else sent.2 ++ [skipLog "destination_disabled"])

structure RouteStageResult where
  routeId : ℤ
  events : List Event
  checkpointEvents : List Event
  deliveryResult : RouteDeliveryResult
  quarantineRow : Option StreamQuarantineEvent := none
  deriving DecidableEq

structure RoutePipelineResult where
  stageResults : List RouteStageResult := []
  checkpointReferenceEvents : List Event := []
  deliveryReferenceEvents : List Event := []
  effects : List Effect := []
  deriving DecidableEq

/-- The quarantine rows the policy stages inserted. -/
def RoutePipelineResult.quarantineRows (pipeline : RoutePipelineResult) :
    List StreamQuarantineEvent :=
  pipeline.stageResults.filterMap (·.quarantineRow)

/-- The stream a batch runs for. Route ids are primary keys; the ephemeral rules are those the
schema drift policy asks for on the batch. -/
structure RunStream where
  ref : StreamRef
  routes : List RouteRun
  routeIds : (routes.map (·.row.id)).Nodup
  engines : Engines
  streamProtectionRules : List Protection.Rule := []
  routeOverrides : List Protection.RouteOverride := []
  ephemeralRules : List Event → List Protection.Rule := fun _ => []

def routeNotFound : RouteSendOutcome :=
  { success := false, latencyMs := 0, error := some "route not found"
    adapterStage := some "route_send_failed" }

namespace RunStream

variable (s : RunStream) (runOpts : StreamRunOptions)

def sharedBatch (batch : List Event) : SharedBatch where
  streamId := s.ref.id
  extractedEvents := batch
  streamProtectionRules := s.streamProtectionRules
  routeOverrides := s.routeOverrides
  ephemeralAutoProtectRules := s.ephemeralRules batch

/-- `process_route_pipeline` up to the policy stage. -/
def stages (batch : List Event) (r : RouteRun) (caches : ResultCaches) :
    Except RunError Prepared × ResultCaches :=
  let out := routeStages s.engines (s.sharedBatch batch) r.context caches
  ((out.1.mapError runError).bind fun events =>
    (r.policy events.protectedEvents).map fun answer =>
      ⟨events.checkpointEvents, answer.events, answer.decision, answer.quarantineRow⟩, out.2)

/-- The `_send_route_events` call made for `r`. -/
def sendCall (r : RouteRun) (events : List Event) : SendCall where
  stream := s.ref
  route := r.row
  routeEvents := events
  recordReplayOnFailure := true
  runOpts := runOpts
  world := r.world

/-- `_deliver_single_route`: the row is looked up again by its id. -/
def deliverSingleRoute (routeId : ℤ) (events : List Event) : RouteSendOutcome × List Effect :=
  match s.routes.find? (fun r => decide (r.row.id = routeId)) with
  | none => (routeNotFound, [])
  | some r => (s.sendCall runOpts r events).sendRouteEvents

/-- `process_route_pipeline` from the delivery stage on. -/
def processRoutePipeline (r : RouteRun) (p : Prepared) : RouteStageResult × List Effect :=
  let sendFn :=
    if deliveryAllowedForDecision p.decision then some (s.deliverSingleRoute runOpts r.row.id)
    else none
  let delivery := routeDeliveryStage s.ref.id r.row.id r.row.destination.id r.row.enabled
    p.decision p.events sendFn
  ({ routeId := r.row.id
     events := if delivery.1.deliverySuccess = some true then p.events else []
     checkpointEvents := p.checkpointEvents
     deliveryResult := delivery.1
     quarantineRow := p.quarantineRow }, delivery.2)

/-- The loop turn of `process_routes` for a route that did not raise. -/
def addResult (acc : RoutePipelineResult) (out : RouteStageResult × List Effect) :
    RoutePipelineResult :=
  let acc := { acc with
    stageResults := acc.stageResults ++ [out.1], effects := acc.effects ++ out.2 }
  if out.1.deliveryResult.deliveryDisposition = .delivered ∧
      out.1.deliveryResult.deliverySuccess = some true ∧ out.1.events ≠ [] then
    { acc with
      checkpointReferenceEvents :=
        if out.1.checkpointEvents.isEmpty then out.1.events else out.1.checkpointEvents
      deliveryReferenceEvents := out.1.events }
  else acc

def routeSkipLog (r : RouteRun) : Effect :=
  .log [("stage", .str "route_skip"), ("stream_id", .int s.ref.id), ("route_id", .int r.row.id),
    ("skip_reason", .str "route_disabled"), ("message", .str "route_disabled")]

/-- `process_routes`: an exception of a route's stages ends the loop. -/
def processRoutes (batch : List Event) :
    List RouteRun → ResultCaches → RoutePipelineResult → RoutePipelineResult × Option RunError
  | [], _, acc => (acc, none)
  | r :: rs, caches, acc =>
    if !r.row.enabled then
      processRoutes batch rs caches { acc with effects := acc.effects ++ [s.routeSkipLog r] }
    else
      match s.stages batch r caches with
      | (.error e, _) => (acc, some e)
      | (.ok p, caches) =>
        processRoutes batch rs caches (addResult acc (s.processRoutePipeline runOpts r p))

end RunStream

structure FanOutOutcome where
  successfulEvents : List Event
  logContinueFailedRouteIds : List ℤ := []
  policyWithheldRouteIds : List ℤ := []
  dynamicDeliveriesSent : ℕ := 0
  failoverAttemptCount : ℕ := 0
  failoverSuccessCount : ℕ := 0
  failoverFailureCount : ℕ := 0
  deriving DecidableEq

/-- The loop state of `_route_delivery_fan_out_outcome`. -/
structure FanOutFlags where
  logContinueFailed : List ℤ := []
  policyWithheld : List ℤ := []
  allRequiredRoutesSucceeded : Bool := true
  anyDeliverySuccess : Bool := false
  sawSendRoute : Bool := false
  failoverAttemptCount : ℕ := 0
  failoverSuccessCount : ℕ := 0
  failoverFailureCount : ℕ := 0
  deriving DecidableEq

def countFailover (f : FanOutFlags) (d : RouteDeliveryResult) : FanOutFlags :=
  if d.failoverAttempted then
    { f with
      failoverAttemptCount := f.failoverAttemptCount + 1
      failoverSuccessCount := f.failoverSuccessCount + d.failoverSucceeded.toNat
      failoverFailureCount := f.failoverFailureCount + (!d.failoverSucceeded).toNat }
  else f

def fanOutStep (f : FanOutFlags) (result : RouteStageResult) : FanOutFlags :=
  let d := result.deliveryResult
  let f := countFailover f d
  if !d.deliveryAllowed then { f with policyWithheld := f.policyWithheld ++ [result.routeId] }
  else if d.skipReason = some .noEvents ∨ d.skipReason = some .destinationDisabled then f
  else if d.skipReason = some .rateLimited then { f with allRequiredRoutesSucceeded := false }
  else
    let f := { f with sawSendRoute := true }
    match d.deliverySuccess with
    | some true => { f with anyDeliverySuccess := true }
    | some false =>
      if d.failureAbsorbed then
        { f with logContinueFailed := f.logContinueFailed ++ [result.routeId] }
      else { f with allRequiredRoutesSucceeded := false }
    | none => { f with allRequiredRoutesSucceeded := false }

/-- `_route_delivery_fan_out_outcome`. -/
def routeDeliveryFanOutOutcome (pipeline : RoutePipelineResult) (referenceEvents : List Event) :
    FanOutOutcome :=
  let f := pipeline.stageResults.foldl fanOutStep {}
  if !f.sawSendRoute then
    { successfulEvents := [], policyWithheldRouteIds := f.policyWithheld
      failoverAttemptCount := f.failoverAttemptCount
      failoverSuccessCount := f.failoverSuccessCount
      failoverFailureCount := f.failoverFailureCount }
  else
    { successfulEvents :=
        if f.allRequiredRoutesSucceeded && f.anyDeliverySuccess then referenceEvents else []
      logContinueFailedRouteIds := f.logContinueFailed
      policyWithheldRouteIds := f.policyWithheld
      failoverAttemptCount := f.failoverAttemptCount
      failoverSuccessCount := f.failoverSuccessCount
      failoverFailureCount := f.failoverFailureCount }

end Runner
