import DataRelay.SchemaDrift.Precedence

/-! The protection rules of one route: its own rules or else the stream's, merged with the
route's overrides and with the ephemeral rules of the batch. -/
namespace RouteProtection
open Protection

/-- What an override asks for. -/
inductive OverrideAction where
  | auditOnly
  | mode (m : ProtectionMode)
  deriving DecidableEq, Repr

def protectionActions : List (String × OverrideAction) :=
  [("audit", .auditOnly), ("audit_only", .auditOnly), ("mask_partial", .mode .partialMask),
   ("partial_mask", .mode .partialMask), ("mask_full", .mode .fullMask),
   ("full_mask", .mode .fullMask), ("mask", .mode .partialMask),
   ("tokenize", .mode .tokenization), ("tokenization", .mode .tokenization),
   ("hash", .mode .hash), ("remove", .mode .dropField), ("drop_field", .mode .dropField)]

def mapProtectionActionToMode (action : Option String) : Option OverrideAction :=
  action.bind fun text => Dict.get? (PyText.lower (PyText.strip text)) protectionActions

inductive PersistedSource where
  | route
  | stream
  | empty
  deriving DecidableEq, Repr

structure RouteProtectionResolution where
  persistedSource : PersistedSource
  overrideCount : ℕ
  ephemeralRuleCount : ℕ
  fallbackUsed : Bool
  deriving DecidableEq, Repr

structure RouteProtectionConfig where
  rules : List Rule
  auditOnlyPaths : List String
  resolution : RouteProtectionResolution
  overrideRulesByPath : List (String × Rule) := []
  deriving DecidableEq, Repr

/-- `_index_rules_by_path`. -/
def indexRulesByPath (rules : List Rule) : List (String × Rule) :=
  rules.foldl (fun indexed rule =>
    if rule.enabled then Dict.set rule.fieldPath rule indexed else indexed) []

/-- The loop state of `apply_route_overrides`. -/
structure OverrideState where
  effective : List (String × Rule)
  auditOnlyPaths : List String := []
  overrideRulesByPath : List (String × Rule) := []

/-- The rule an override puts in place. -/
def overrideEntry (streamId : ℤ) (o : RouteOverride) (mode : ProtectionMode) : Rule where
  streamId := streamId
  fieldPath := PyText.strip o.fieldPath
  protectionMode := mode
  sensitivityClass :=
    some (match o.sensitivityClass with
      | some c => if c.isEmpty then "pii" else c
      | none => "pii")

def applyOverride (streamId : ℤ) (s : OverrideState) (o : RouteOverride) : OverrideState :=
  let fieldPath := PyText.strip o.fieldPath
  if !o.enabled || fieldPath.isEmpty then s
  else
    match mapProtectionActionToMode o.protectionAction with
    | none => s
    | some .auditOnly =>
      { s with
        effective := Dict.erase fieldPath s.effective
        auditOnlyPaths := s.auditOnlyPaths ++ [fieldPath] }
    | some (.mode m) =>
      { s with
        effective := Dict.set fieldPath (overrideEntry streamId o m) s.effective
        overrideRulesByPath :=
          Dict.set fieldPath (overrideEntry streamId o m) s.overrideRulesByPath }

/-- `apply_route_overrides`. -/
def applyRouteOverrides (streamId : ℤ) (baseRules : List Rule) (overrides : List RouteOverride) :
    OverrideState :=
  overrides.foldl (applyOverride streamId) { effective := indexRulesByPath baseRules }

/-- The persisted rules a route starts from, and where they come from. -/
def persistedBase (routeRules streamRules : List Rule) : List Rule × PersistedSource :=
  let route := routeRules.filter (·.enabled)
  let stream := streamRules.filter (·.enabled)
  if !route.isEmpty then (route, .route)
  else if !stream.isEmpty then (stream, .stream)
  else ([], .empty)

def routeOverridesOf (routeId : ℤ) (overrides : List RouteOverride) : List RouteOverride :=
  overrides.filter fun o => o.routeId = routeId

/-- `resolve_route_protection_config`. -/
def resolveRouteProtectionConfig (routeId streamId : ℤ) (routeRules streamRules : List Rule)
    (overrides : List RouteOverride) (ephemeral : List Rule) : RouteProtectionConfig :=
  let base := persistedBase routeRules streamRules
  let own := routeOverridesOf routeId overrides
  let merged := applyRouteOverrides streamId (base.1.map ({ · with streamId })) own
  { rules := merged.effective.map Prod.snd
    auditOnlyPaths := merged.auditOnlyPaths
    resolution := {
      persistedSource := base.2
      overrideCount := own.length
      ephemeralRuleCount := ephemeral.length
      fallbackUsed := decide (base.2 = .stream) }
    overrideRulesByPath := merged.overrideRulesByPath }

/-- `merge_ephemeral_for_route`. -/
def mergeEphemeralForRoute (ephemeral : List Rule) (config : RouteProtectionConfig) : List Rule :=
  ephemeral.filterMap fun rule =>
    if rule.fieldPath.isEmpty then none
    else if rule.fieldPath ∈ config.auditOnlyPaths then none
    else
      match Dict.get? rule.fieldPath config.overrideRulesByPath with
      | some override =>
        some { rule with protectionMode := override.protectionMode, enabled := true }
      | none =>
        if rule.fieldPath ∈ config.rules.map (·.fieldPath) then none else some rule

end RouteProtection
