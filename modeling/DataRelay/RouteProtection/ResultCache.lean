import DataRelay.Lib.JsonCanonical
import DataRelay.Lib.Memo
import DataRelay.Protection.Batch
import DataRelay.RouteProtection.Resolver

/-! The transform and protection stages of the routes of one batch, with the results the
routes share. A cache key is the dump of a payload; it is kept as the value that is dumped,
which the dump determines. -/
namespace RouteProtection
open Protection Delivery Reordering

/-- The effective mapping and enrichment of one route. -/
structure RouteTransformConfig where
  fieldMappings : Json.Members
  enrichment : Json.Members
  overridePolicy : String
  deriving DecidableEq

/-- What `transform_config_cache_key` dumps, before its members are sorted. -/
def RouteTransformConfig.payload (c : RouteTransformConfig) : Json :=
  .obj [("field_mappings", .obj c.fieldMappings), ("enrichment", .obj c.enrichment),
    ("override_policy", .str c.overridePolicy)]

/-- `transform_config_cache_key`. -/
def transformConfigCacheKey (c : RouteTransformConfig) : Json := c.payload.sortKeys

/-- What a cache key holds of one rule. -/
structure RulePayload where
  streamId : ℤ
  fieldPath : String
  protectionMode : ProtectionMode
  sensitivityClass : String
  enabled : Bool
  deriving DecidableEq, Repr

def rulePayload (unclassified : String) (rule : Rule) : RulePayload where
  streamId := rule.streamId
  fieldPath := rule.fieldPath
  protectionMode := rule.protectionMode
  sensitivityClass := rule.sensitivityClass.getD unclassified
  enabled := rule.enabled

structure ProtectionKey where
  /-- `none` is the key `__raw__` of a route without a transform. -/
  transformKey : Option Json
  rules : List RulePayload
  ephemeral : List RulePayload
  deriving DecidableEq

/-- `protection_execution_cache_key`: both rule lists are sorted by path. -/
def protectionExecutionCacheKey (transformKey : Option Json) (config : RouteProtectionConfig)
    (mergedEphemeral : List Rule) : ProtectionKey where
  transformKey := transformKey
  rules := sortBy RulePayload.fieldPath (config.rules.map (rulePayload "None"))
  ephemeral := sortBy RulePayload.fieldPath (mergedEphemeral.map (rulePayload ""))

structure RouteContext where
  routeId : ℤ
  enabled : Bool := true
  transform : Option RouteTransformConfig := none
  protectionRules : List Rule := []
  deriving DecidableEq

structure SharedBatch where
  streamId : ℤ
  extractedEvents : List Event
  streamProtectionRules : List Rule := []
  routeOverrides : List RouteOverride := []
  ephemeralAutoProtectRules : List Rule := []

/-- The engines behind the stages: mapping and enrichment of a batch, and the modes. -/
structure Engines where
  transform : RouteTransformConfig → List Event → Except String (List Event)
  modes : ModeContext
  protectionEnabled : Bool := true

inductive RouteError where
  | transform (message : String)
  /-- `ProtectionApplicationError`. -/
  | protection (fieldPath : String) (ruleId : Option ℤ)
  | unhandled (message : String)
  deriving DecidableEq, Repr

/-- What a route gets from its stages: the batch before protection, for the checkpoint, and
the batch it delivers. -/
structure RouteEvents where
  checkpointEvents : List Event
  protectedEvents : List Event
  deriving DecidableEq

/-- `transform_result_cache` and `protection_result_cache`. -/
structure ResultCaches where
  transform : List (Json × List Event) := []
  protection : List (ProtectionKey × ProtectBatchResult) := []

section Stages

variable (w : Engines) (b : SharedBatch)

namespace RouteContext

variable (r : RouteContext)

def protectionConfig : RouteProtectionConfig :=
  resolveRouteProtectionConfig r.routeId b.streamId r.protectionRules b.streamProtectionRules
    b.routeOverrides b.ephemeralAutoProtectRules

def mergedEphemeral : List Rule :=
  mergeEphemeralForRoute b.ephemeralAutoProtectRules (r.protectionConfig b)

def cacheKey : ProtectionKey :=
  protectionExecutionCacheKey (r.transform.map transformConfigCacheKey) (r.protectionConfig b)
    (r.mergedEphemeral b)

/-- The paths of the rules the route's batch goes through, in their order. -/
def pathsInForce : List String :=
  (rulesInForce (r.protectionConfig b).rules (r.mergedEphemeral b)).map (·.fieldPath)

end RouteContext

/-- `_apply_route_transform`. -/
def applyRouteTransform (c : RouteTransformConfig) : Except RouteError (List Event) :=
  (w.transform c b.extractedEvents).mapError .transform

/-- The transform part of `process_route_pipeline`. -/
def transformStage (r : RouteContext) (cache : List (Json × List Event)) :
    Except RouteError (List Event) × List (Json × List Event) :=
  match r.transform with
  | none => (.ok b.extractedEvents, cache)
  | some c => Memo.serve (transformConfigCacheKey c) (applyRouteTransform w b c) cache

/-- The rule an unexpected failure of the engine is attributed to. -/
def failingRule (rules : List Rule) : Option Rule :=
  rules.find? fun r => r.enabled && decide (r.protectionMode = .tokenization)

/-- `route_protection_stage` on a cache miss. -/
def protectRoute (r : RouteContext) (events : List Event) : Except RouteError ProtectBatchResult :=
  let rules := (r.protectionConfig b).rules
  let merged := r.mergedEphemeral b
  match collectTokenizationTargets events (rules ++ merged) with
  | .error e => .error (.unhandled e)
  | .ok _ =>
    match protectBatch w.modes w.protectionEnabled events rules merged with
    | .error _ =>
      match failingRule (rules ++ merged) with
      | none => .error (.protection "configured protection" none)
      | some rule => .error (.protection rule.fieldPath (rule.id.filter (· ≠ 0)))
    | .ok result =>
      match result.warnings with
      | [] => .ok result
      | first :: _ => .error (.protection first.fieldPath first.ruleId)

/-- `process_route_pipeline` up to the protected events. -/
def routeStages (r : RouteContext) (caches : ResultCaches) :
    Except RouteError RouteEvents × ResultCaches :=
  let transformed := transformStage w b r caches.transform
  match transformed.1 with
  | .error e => (.error e, { caches with transform := transformed.2 })
  | .ok events =>
    let result := Memo.serve (r.cacheKey b) (protectRoute w b r events) caches.protection
    (result.1.map fun result => ⟨events, result.events⟩, ⟨transformed.2, result.2⟩)

/-- The caches after the loop of `process_routes` over `routes`; `none` when one raised. -/
def cachesAfter : List RouteContext → ResultCaches → Option ResultCaches
  | [], caches => some caches
  | r :: routes, caches =>
    if !r.enabled then cachesAfter routes caches
    else
      match routeStages w b r caches with
      | (.ok _, caches) => cachesAfter routes caches
      | (.error _, _) => none

end Stages

end RouteProtection
