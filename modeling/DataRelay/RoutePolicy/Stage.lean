import DataRelay.RoutePolicy.Decision

/-! The policy stage of one route: the decision on its batch, the quarantine row and what is
handed on. -/
namespace RoutePolicy
open Delivery Protection SchemaDrift Runner

def maxQuarantineEvents : ℕ := 500

/-- `text[:256]`. -/
def clipReason (text : String) : String := String.ofList (text.toList.take 256)

def buildQuarantineReason (result : PolicyBatchResult) : String :=
  match matchedQuarantineEvaluations result with
  | [] => "policy:unknown"
  | item :: items =>
    let names := ((item :: items).map (·.policyName)).filter (!·.isEmpty)
    if names.isEmpty then "policy:rule_" ++ toString item.policyId
    else "policy:" ++ String.intercalate "," names

def behaviorName : DeliveryBehavior → String
  | .continue => "continue"
  | .block => "block"
  | .quarantine => "quarantine"
  | .requireReview => "require_review"

/-- `merge_schema_drift_quarantine`. -/
def mergeSchemaDriftQuarantine (result : PolicyBatchResult) (policyType : String)
    (fieldPaths : List String) : PolicyBatchResult :=
  if fieldPaths.isEmpty then result
  else
    let name := "schema_drift:" ++ policyType
    let evaluations := result.evaluations ++ [⟨0, true, name, .quarantine⟩]
    { result with
      evaluations
      matchedPolicies := result.matchedPolicies ++ [name]
      matchedPolicyCount := evaluations.countP (·.isMatched) }

/-- The inputs of `route_policy_stage` but for the events. -/
structure PolicyCall where
  streamId : ℤ
  routeId : ℤ
  destinationId : ℤ
  routeRules : List PolicyRule := []
  streamRules : List PolicyRule := []
  overrides : List RouteOverride := []
  governance : List GovernanceRule := []
  drift : Option SchemaDriftPolicyResult := none
  /-- `applied_policy` of the drift result's unknown fields. -/
  appliedPolicy : UnknownFieldMatch → Policy := fun _ => .passThrough
  findings : List SensitiveFinding := []
  classificationLevel : Option String := none
  previewOnly : Bool := false
  /-- Whether the quarantine row can be inserted: flushed on the request session, or flushed and
  committed on a session of its own when there is none. -/
  insertSucceeds : Bool := true

structure RoutePolicyResult where
  decision : PolicyDecision
  matchedPolicyCount : ℕ
  persistedSource : PersistedSource
  deliveryAllowed : Bool
  quarantineRecorded : Bool
  reviewRequired : Bool
  overrideApplied : Bool
  decisionReason : String

/-- What the stage returns, and the quarantine row it leaves. -/
structure PolicyOutcome where
  events : List Event
  result : RoutePolicyResult
  quarantineRow : Option StreamQuarantineEvent := none

namespace PolicyCall

variable (c : PolicyCall)

def config : RoutePolicyConfig :=
  resolveRoutePolicyConfig c.routeId c.routeRules c.streamRules c.overrides c.governance c.drift

def policyBatchResult (events : List Event) : PolicyBatchResult :=
  if !events.isEmpty && (!c.config.rules.isEmpty || !c.config.empty) then
    evaluateInjectedPolicyBatch c.config.rules events c.findings
  else {}

def decision (events : List Event) : PolicyDecision × String :=
  mergeRoutePolicyDecision (c.policyBatchResult events) c.config

/-- Only the drift gate asks for the quarantine. -/
def driftOnly (events : List Event) : Bool :=
  !shouldQuarantineBatch (c.policyBatchResult events) && c.config.resolution.driftQuarantineRequired

/-- The paths named in the virtual drift policy. -/
def driftFieldPaths : List String :=
  let fields := (c.drift.map (·.unknownFields)).getD []
  let own := (fields.filter fun item => c.appliedPolicy item = .quarantine).map (·.enrichedPath)
  (if own.isEmpty then fields.map (·.enrichedPath) else own).filter (!·.isEmpty)

/-- The batch result the quarantine row is written from. -/
def quarantineBatchResult (events : List Event) : PolicyBatchResult :=
  if c.driftOnly events then
    mergeSchemaDriftQuarantine (c.policyBatchResult events)
      ((c.drift.bind (·.quarantinePolicyType)).getD "unknown_normal") c.driftFieldPaths
  else c.policyBatchResult events

/-- The row `record_route_policy_quarantine_event` tries to insert; `none` when nothing asks
for one. -/
def quarantineRow (events : List Event) : Option StreamQuarantineEvent :=
  let result := c.quarantineBatchResult events
  let matched := matchedQuarantineEvaluations result
  let reason := (c.decision events).2
  if matched.isEmpty && !c.driftOnly events &&
      !decide (c.config.overrideDeliveryBehavior = some .quarantine) then none
  else
    let payload := events.take maxQuarantineEvents
    if payload.isEmpty then none
    else some {
      streamId := c.streamId
      routeId := c.routeId
      quarantineReason := clipReason <|
        if !matched.isEmpty then buildQuarantineReason result
        else if c.driftOnly events then "policy:drift_quarantine:" ++ reason
        else "policy:delivery_behavior_quarantine:" ++ reason
      protectedPayload := payload
      metadata := [("event_count", .int payload.length), ("route_id", .int c.routeId),
        ("destination_id", .int c.destinationId), ("decision_reason", .str reason),
        ("delivery_behavior_override",
          optStr (c.config.overrideDeliveryBehavior.map behaviorName)),
        ("classification_level", optStr c.classificationLevel),
        ("drift_quarantine", .bool (c.driftOnly events))] ++
        (if matched.isEmpty then [] else
          [("policy_ids", .arr (matched.map fun item => .int item.policyId)),
           ("policy_names", .arr (matched.map fun item => .str item.policyName))]) }

def quarantinePersistenceError : RunError :=
  ⟨.quarantinePersistence,
    "quarantine persistence failed for route " ++ toString c.routeId ++ "; delivery blocked"⟩

/-- The stage asks for a quarantine row. -/
def quarantines (events : List Event) : Bool :=
  decide ((c.decision events).1 = .quarantine) && !events.isEmpty && !c.previewOnly

/-- What the stage returns once the row, if any, is written. -/
def outcome (events : List Event) (row : Option StreamQuarantineEvent) : PolicyOutcome :=
  let decision := c.decision events
  let allowed := deliveryAllowedForDecision decision.1
  { events := if allowed then events else []
    quarantineRow := row
    result := {
      decision := decision.1
      matchedPolicyCount := if c.quarantines events then
        (c.quarantineBatchResult events).matchedPolicyCount
        else (c.policyBatchResult events).matchedPolicyCount
      persistedSource := c.config.resolution.persistedSource
      deliveryAllowed := allowed
      quarantineRecorded := row.isSome
      reviewRequired := decide (decision.1 = .requireReview)
      overrideApplied := c.config.overrideDeliveryBehavior.isSome
      decisionReason := decision.2 } }

/-- `route_policy_stage`. -/
def routePolicyStage (events : List Event) : Except RunError PolicyOutcome :=
  if c.quarantines events then
    match c.quarantineRow events with
    | none => .error c.quarantinePersistenceError
    | some row =>
      if c.insertSucceeds then .ok (c.outcome events (some row))
      else .error c.quarantinePersistenceError
  else .ok (c.outcome events none)

/-- The classification and policy stages of a route on its protected events. -/
def answer (classify : List Event → Except RunError (List Event)) (protectedEvents : List Event) :
    Except RunError PolicyAnswer := do
  let events ← classify protectedEvents
  let out ← c.routePolicyStage events
  return { events, decision := out.result.decision, quarantineRow := out.quarantineRow }

end PolicyCall

end RoutePolicy
