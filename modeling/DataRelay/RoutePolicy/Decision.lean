import DataRelay.Classification.RouteStage
import DataRelay.Runner.StreamRun
import DataRelay.SchemaDrift.Precedence

/-! The policy decision of one route: which rules match its batch, which delivery behaviour
is in force, and how these and the drift gates are merged. -/
namespace RoutePolicy
open Classification Delivery Protection SchemaDrift Runner

inductive PolicyAction where
  | auditOnly
  | quarantine
  | other (name : String)
  deriving DecidableEq, Repr

/-- A row of the stream's or the route's policy rules. -/
structure PolicyRule where
  id : Option ℤ := none
  name : String := ""
  conditionJson : Json.Members
  actionType : PolicyAction := .auditOnly
  enabled : Bool := true
  deriving DecidableEq, Repr

structure PolicyEvaluationItem where
  policyId : ℤ
  isMatched : Bool
  policyName : String := ""
  actionType : PolicyAction := .auditOnly
  deriving DecidableEq, Repr

structure PolicyBatchResult where
  evaluations : List PolicyEvaluationItem := []
  matchedPolicies : List String := []
  policyCount : ℕ := 0
  matchedPolicyCount : ℕ := 0
  auditEventCount : ℕ := 0
  deriving DecidableEq, Repr

/-- `read_classification_level` and `normalize_level`: no text of a list or an object is a
level. -/
def classificationLevelOf (event : Event) : Option String :=
  let raw := getOrNull "classification_level_gdc" event
  let raw := if raw = .null then getOrNull "classification_level" event else raw
  (Dedup.scalarText raw).bind normalizeLevel

def classificationLevelsFromEvents (events : List Event) : List String :=
  events.filterMap classificationLevelOf

def supportedConditionClasses : List String := ["secret", "pii", "security_metadata"]

/-- `_condition_matches`. -/
def conditionMatches (condition : Json.Members) (findingClasses levels : List String) : Bool :=
  match getOrNull "classification_level" condition with
  | .null =>
    match Dedup.scalarText (getOrNull "sensitivity_class" condition) with
    | some required =>
      decide (required ∈ supportedConditionClasses) && decide (required ∈ findingClasses)
    | none => false
  | required =>
    match (Dedup.scalarText required).bind normalizeLevel with
    | some level => decide (level ∈ levels)
    | none => false

def findingClassesOf (findings : List SensitiveFinding) : List String :=
  findings.map (·.sensitivityClass)

/-- `evaluate_injected_policy_batch`. -/
def evaluateInjectedPolicyBatch (rules : List PolicyRule) (events : List Event)
    (findings : List SensitiveFinding) : PolicyBatchResult :=
  let enabled := rules.filter (·.enabled)
  if events.isEmpty || enabled.isEmpty then {}
  else
    let holds (rule : PolicyRule) : Bool := conditionMatches rule.conditionJson
      (findingClassesOf findings) (classificationLevelsFromEvents events)
    let matching := enabled.filter holds
    { evaluations := enabled.map fun rule =>
        ⟨rule.id.getD 0, holds rule, rule.name, rule.actionType⟩
      matchedPolicies := matching.map (·.name)
      policyCount := enabled.length
      matchedPolicyCount := matching.length
      auditEventCount := matching.countP fun rule => rule.actionType = .auditOnly }

/-- A governance rule of the stream, as far as its default behaviour goes. -/
structure GovernanceRule where
  enabled : Bool := true
  defaultDeliveryBehavior : Option String := none
  deriving DecidableEq, Repr

def deliveryBehaviorPrecedence : DeliveryBehavior → ℕ
  | .quarantine => 4
  | .block => 3
  | .requireReview => 2
  | .continue => 1

/-- `_pick_most_restrictive`: the first of the strongest. -/
def pickMostRestrictive (candidates : List DeliveryBehavior) : Option DeliveryBehavior :=
  candidates.argmax deliveryBehaviorPrecedence

/-- The behaviours the enabled overrides of a route name. -/
def overrideBehaviors (routeId : ℤ) (overrides : List RouteOverride) : List DeliveryBehavior :=
  (overrides.filter fun o => decide (o.routeId = routeId) && o.enabled).filterMap fun o =>
    normalizeDeliveryBehavior o.deliveryBehavior

def extractRouteOverrideDeliveryBehavior (routeId : ℤ) (overrides : List RouteOverride) :
    Option DeliveryBehavior :=
  pickMostRestrictive (overrideBehaviors routeId overrides)

/-- The default behaviours the enabled governance rules name. -/
def defaultBehaviors (rules : List GovernanceRule) : List DeliveryBehavior :=
  (rules.filter (·.enabled)).filterMap fun r =>
    normalizeDeliveryBehavior r.defaultDeliveryBehavior

def extractStreamDefaultDeliveryBehavior (rules : List GovernanceRule) :
    Option DeliveryBehavior :=
  pickMostRestrictive (defaultBehaviors rules)

/-- `resolve_effective_delivery_behavior`: an override of the route displaces the default. -/
def resolveEffectiveDeliveryBehavior (routeId : ℤ) (overrides : List RouteOverride)
    (governance : List GovernanceRule) : Option DeliveryBehavior :=
  match extractRouteOverrideDeliveryBehavior routeId overrides with
  | some behavior => some behavior
  | none => extractStreamDefaultDeliveryBehavior governance

inductive PersistedSource where
  | route
  | stream
  | empty
  deriving DecidableEq, Repr

structure RoutePolicyResolution where
  persistedSource : PersistedSource
  overrideCount : ℕ
  fallbackUsed : Bool
  driftReviewRequired : Bool := false
  driftQuarantineRequired : Bool := false
  deriving DecidableEq, Repr

structure RoutePolicyConfig where
  rules : List PolicyRule
  overrideDeliveryBehavior : Option DeliveryBehavior
  resolution : RoutePolicyResolution
  deriving DecidableEq, Repr

def RoutePolicyConfig.empty (config : RoutePolicyConfig) : Bool :=
  config.rules.isEmpty && config.overrideDeliveryBehavior.isNone &&
    !config.resolution.driftReviewRequired && !config.resolution.driftQuarantineRequired

/-- The enabled rules of the route, else those of the stream. -/
def persistedRules (routeRules streamRules : List PolicyRule) : List PolicyRule × PersistedSource :=
  let own := routeRules.filter (·.enabled)
  let shared := streamRules.filter (·.enabled)
  if !own.isEmpty then (own, .route) else if !shared.isEmpty then (shared, .stream) else ([], .empty)

/-- `resolve_route_policy_config`. -/
def resolveRoutePolicyConfig (routeId : ℤ) (routeRules streamRules : List PolicyRule)
    (overrides : List RouteOverride) (governance : List GovernanceRule)
    (drift : Option SchemaDriftPolicyResult) : RoutePolicyConfig :=
  let persisted := persistedRules routeRules streamRules
  let gates := deriveDriftGates drift routeId overrides
  { rules := persisted.1
    overrideDeliveryBehavior := resolveEffectiveDeliveryBehavior routeId overrides governance
    resolution := {
      persistedSource := persisted.2
      overrideCount := (overrideBehaviors routeId overrides).length
      fallbackUsed := decide (persisted.2 = .stream)
      driftReviewRequired := gates.1
      driftQuarantineRequired := gates.2 } }

def decisionPrecedence : PolicyDecision → ℕ
  | .allow => 1
  | .audit => 2
  | .requireReview => 3
  | .block => 4
  | .quarantine => 5

/-- `_pick_strongest`: `max` keeps the first of the strongest. -/
def pickStrongest (candidates : List PolicyDecision) : PolicyDecision :=
  (candidates.argmax decisionPrecedence).getD .allow

def matchedQuarantineEvaluations (result : PolicyBatchResult) : List PolicyEvaluationItem :=
  result.evaluations.filter fun item => item.isMatched && decide (item.actionType = .quarantine)

def shouldQuarantineBatch (result : PolicyBatchResult) : Bool :=
  !(matchedQuarantineEvaluations result).isEmpty

/-- `merge_route_policy_decision`: each source adds a candidate and a reason. -/
def mergeCandidates (result : PolicyBatchResult) (config : RoutePolicyConfig) :
    List (PolicyDecision × String) :=
  let auditMatches := result.evaluations.filter fun item =>
    item.isMatched && decide (item.actionType = .auditOnly)
  (if shouldQuarantineBatch result then [(.quarantine, "matched_policy_quarantine")] else []) ++
  (if auditMatches.isEmpty then [] else [(.audit, "matched_policy_audit")]) ++
  (match config.overrideDeliveryBehavior with
    | some .block => [(.block, "delivery_behavior_block")]
    | some .quarantine => [(.quarantine, "delivery_behavior_quarantine")]
    | some .requireReview => [(.requireReview, "delivery_behavior_require_review")]
    | _ => []) ++
  (if config.resolution.driftQuarantineRequired then [(.quarantine, "schema_drift_quarantine")]
    else []) ++
  (if config.resolution.driftReviewRequired then
    [(.requireReview, "schema_drift_require_review")] else [])

def mergeRoutePolicyDecision (result : PolicyBatchResult) (config : RoutePolicyConfig) :
    PolicyDecision × String :=
  let candidates := mergeCandidates result config
  (pickStrongest (.allow :: candidates.map Prod.fst),
    if candidates.isEmpty then "default_allow" else String.intercalate ";" (candidates.map Prod.snd))

end RoutePolicy
