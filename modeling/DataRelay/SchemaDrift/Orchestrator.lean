import DataRelay.Lib.PyText
import DataRelay.Delivery.SendRoute
import DataRelay.Protection.Rules

/-! The schema drift policy of one batch: unknown fields are matched, the policies of the two
kinds collapse to one batch action, and the action yields gates or ephemeral rules. -/
namespace SchemaDrift
open Protection Delivery

inductive Policy where
  | passThrough
  | requireReview
  | dropField
  | autoProtect
  | quarantine
  deriving DecidableEq, Repr

def Policy.name : Policy → String
  | .passThrough => "pass_through"
  | .requireReview => "require_review"
  | .dropField => "drop_field"
  | .autoProtect => "auto_protect"
  | .quarantine => "quarantine"

def unknownNormalPolicies : List Policy := [.passThrough, .requireReview, .dropField, .quarantine]

def unknownSensitivePolicies : List Policy :=
  [.autoProtect, .requireReview, .dropField, .quarantine]

/-- A configuration holds only policies its kind allows. -/
structure SchemaDriftPolicyConfig where
  unknownNormalFieldPolicy : Policy := .passThrough
  unknownSensitiveFieldPolicy : Policy := .autoProtect
  normal_mem : unknownNormalFieldPolicy ∈ unknownNormalPolicies := by decide
  sensitive_mem : unknownSensitiveFieldPolicy ∈ unknownSensitivePolicies := by decide
  deriving DecidableEq

/-- `_normalize_normal` and `_normalize_sensitive`: the allowed policy of that name, else the
default. Only a string can name one. -/
def normalizePolicy (allowed : List Policy) (default : { p // p ∈ allowed })
    (value : Option Json) : { p // p ∈ allowed } :=
  match value with
  | some (.str s) =>
    match h : allowed.find? fun p => decide (p.name = PyText.strip s) with
    | some p => ⟨p, List.mem_of_find?_eq_some h⟩
    | none => default
  | _ => default

def normalizeNormal : Option Json → { p // p ∈ unknownNormalPolicies } :=
  normalizePolicy unknownNormalPolicies ⟨.passThrough, by decide⟩

def normalizeSensitive : Option Json → { p // p ∈ unknownSensitivePolicies } :=
  normalizePolicy unknownSensitivePolicies ⟨.autoProtect, by decide⟩

/-- `load_schema_drift_policy`. -/
def loadSchemaDriftPolicy (configJson : Json) : SchemaDriftPolicyConfig :=
  match configJson with
  | .obj root =>
    match Dict.get? "governance" root with
    | some (.obj governance) =>
      match Dict.get? "schema_drift_policy" governance with
      | some (.obj raw) =>
        let normal := normalizeNormal (Dict.get? "unknown_normal_field_policy" raw)
        let sensitive := normalizeSensitive (Dict.get? "unknown_sensitive_field_policy" raw)
        ⟨normal, sensitive, normal.2, sensitive.2⟩
      | _ => {}
    | _ => {}
  | _ => {}

def actionStrength : Policy → ℕ
  | .passThrough => 0
  | .requireReview => 0
  | .dropField => 1
  | .autoProtect => 1
  | .quarantine => 2

/-- `_resolve_batch_action`; `none` is `noop`. -/
def resolveBatchAction (normalPolicy sensitivePolicy : Policy) (hasNormal hasSensitive : Bool) :
    Option Policy :=
  let actions : List (ℕ × Policy × Bool) :=
    (if hasNormal then [(actionStrength normalPolicy, normalPolicy, false)] else []) ++
      (if hasSensitive then [(actionStrength sensitivePolicy, sensitivePolicy, true)] else [])
  let maxStrength := (actions.map (·.1)).foldl max 0
  let strongest := actions.filter fun a => a.1 = maxStrength
  match strongest with
  | [] => none
  | [a] => some a.2.1
  | a :: _ =>
    match strongest.find? (·.2.2) with
    | some b => some b.2.1
    | none => some a.2.1

structure FieldDrift where
  id : ℤ
  category : String
  fieldPath : String
  deriving DecidableEq, Repr

structure SensitiveFinding where
  fieldPath : String
  sensitivityClass : String := ""
  deriving DecidableEq, Repr

structure UnknownFieldMatch where
  extractedPath : String
  enrichedPath : String
  driftFindingId : ℤ
  isSensitive : Bool
  sensitivityClass : Option String := none
  deriving DecidableEq, Repr

structure SchemaDriftPolicyResult where
  enabled : Bool
  config : SchemaDriftPolicyConfig
  batchAction : Option Policy := none
  unknownFields : List UnknownFieldMatch := []
  unresolvedPaths : List String := []
  shouldQuarantine : Bool := false
  quarantinePolicyType : Option String := none
  reviewFields : List UnknownFieldMatch := []
  ephemeralProtectionRules : List Rule := []

/-- All inputs of `apply_schema_drift_policy_to_batch`. Path resolution against the batch
enters as two functions. -/
structure DriftBatch where
  streamId : ℤ := 1
  policyEnabled : Bool := true
  hasDb : Bool := true
  streamConfigJson : Json := .null
  enrichedEvents : List Event
  openDrifts : List FieldDrift
  findings : List SensitiveFinding := []
  aliasMap : List (String × String) := []
  /-- `resolve_protection_field_path` on the batch's paths: the path, or the error. -/
  resolvePath : String → Except String String
  pathExistsInBatch : String → Bool
  empty_absent : pathExistsInBatch "" = false := by rfl
  /-- `load_enabled_rules`. -/
  enabledRules : List Rule := []

def autoProtectModeForClass (sensitivityClass : Option String) : ProtectionMode :=
  if PyText.strip (sensitivityClass.getD "") = "secret" then .fullMask else .partialMask

/-- `_sensitive_paths_from_context`. -/
def sensitivePathsFromContext (findings : List SensitiveFinding) : List (String × String) :=
  findings.foldl (fun out item =>
    let path := PyText.strip item.fieldPath
    if path.isEmpty then out
    else
      let sensitivity := PyText.strip item.sensitivityClass
      Dict.set path (if sensitivity.isEmpty then (Dict.get? path out).getD "" else sensitivity)
        out) []

namespace DriftBatch

variable (b : DriftBatch)

def config : SchemaDriftPolicyConfig := loadSchemaDriftPolicy b.streamConfigJson

/-- Findings by path, also under the mapped output paths. -/
def sensitiveByPath : List (String × String) :=
  let found := sensitivePathsFromContext b.findings
  found.foldl (fun out item =>
    match Dict.get? item.1 b.aliasMap with
    | some aliased =>
      if aliased.isEmpty || Dict.has aliased out then out else Dict.set aliased item.2 out
    | none => out) found

/-- What one open drift contributes: a match, an unresolved path, or nothing. -/
inductive DriftOutcome where
  | field (item : UnknownFieldMatch)
  | unresolved (path error : String)
  | absent

def matchDrift (drift : FieldDrift) : DriftOutcome :=
  let extractedPath := PyText.strip drift.fieldPath
  if extractedPath.isEmpty then .absent
  else
    match b.resolvePath extractedPath with
    | .error e => .unresolved extractedPath e
    | .ok enrichedPath =>
      if !b.pathExistsInBatch enrichedPath then .absent
      else .field {
        extractedPath, enrichedPath
        driftFindingId := drift.id
        isSensitive := Dict.has enrichedPath b.sensitiveByPath
        sensitivityClass := Dict.get? enrichedPath b.sensitiveByPath }

def driftOutcomes : List DriftOutcome :=
  (b.openDrifts.filter fun d => d.category = "field_added").map b.matchDrift

/-- The unknown fields of the batch. -/
def unknownFields : List UnknownFieldMatch :=
  b.driftOutcomes.filterMap fun
    | .field item => some item
    | _ => none

def unresolvedPaths : List String :=
  b.driftOutcomes.filterMap fun
    | .unresolved path _ => some path
    | _ => none

def resolutionLogs : List LogPayload :=
  b.driftOutcomes.filterMap fun
    | .unresolved path error => some
      [("stage", .str "schema_drift_policy_path_resolution_failed"), ("stream_id", .int b.streamId),
       ("extracted_path", .str path), ("field_path", .str path),
       ("policy_type", .str "path_resolution"), ("sensitive", .bool false),
       ("message", .str error)]
    | _ => none

/-- `applied_policy`: the policy configured for the field's kind. -/
def appliedPolicy (item : UnknownFieldMatch) : Policy :=
  if item.isSensitive then b.config.unknownSensitiveFieldPolicy
  else b.config.unknownNormalFieldPolicy

def batchAction : Option Policy :=
  resolveBatchAction b.config.unknownNormalFieldPolicy b.config.unknownSensitiveFieldPolicy
    (b.unknownFields.any (!·.isSensitive)) (b.unknownFields.any (·.isSensitive))

def existingPaths : List String := b.enabledRules.map (·.fieldPath)

def ephemeralRule (item : UnknownFieldMatch) (mode : ProtectionMode) : Rule where
  streamId := b.streamId
  fieldPath := item.enrichedPath
  protectionMode := mode
  sensitivityClass := item.sensitivityClass

/-- The fields auto-protect mints a rule for. -/
def autoProtected : List UnknownFieldMatch :=
  b.unknownFields.filter fun item => item.isSensitive &&
    decide (b.config.unknownSensitiveFieldPolicy = .autoProtect) &&
      decide (item.enrichedPath ∉ b.existingPaths)

/-- The fields a drop rule is minted for. -/
def dropped : List UnknownFieldMatch :=
  b.unknownFields.filter fun item =>
    decide (b.appliedPolicy item = .dropField) && decide (item.enrichedPath ∉ b.existingPaths)

def reviewed : List UnknownFieldMatch :=
  b.unknownFields.filter fun item => b.appliedPolicy item = .requireReview

def quarantined : List UnknownFieldMatch :=
  let items := b.unknownFields.filter fun item => b.appliedPolicy item = .quarantine
  if items.isEmpty then b.unknownFields else items

def policyType (isSensitive : Bool) : String :=
  if isSensitive then "unknown_sensitive" else "unknown_normal"

def pathTexts (items : List UnknownFieldMatch) : Json :=
  .arr (items.map fun item => .str item.enrichedPath)

def actionLog (action : Policy) (extra : LogPayload) : LogPayload :=
  [("stage", .str "schema_drift_policy"), ("stream_id", .int b.streamId),
   ("action", .str action.name)] ++ extra

def reviewLog (item : UnknownFieldMatch) : LogPayload :=
  [("stage", .str "schema_drift_policy_review_required"), ("stream_id", .int b.streamId),
   ("field_path", .str item.enrichedPath), ("extracted_path", .str item.extractedPath),
   ("policy_type", .str (policyType item.isSensitive)),
   ("configured_policy", .str (b.appliedPolicy item).name), ("sensitive", .bool item.isSensitive),
   ("sensitivity_class", optStr item.sensitivityClass),
   ("drift_finding_id", .int item.driftFindingId)]

def autoProtectLog (item : UnknownFieldMatch) : LogPayload :=
  [("stage", .str "schema_drift_policy_auto_protect_applied"), ("stream_id", .int b.streamId),
   ("field_path", .str item.enrichedPath), ("extracted_path", .str item.extractedPath),
   ("sensitivity_class", optStr item.sensitivityClass),
   ("protection_mode", .str (autoProtectModeForClass item.sensitivityClass).name),
   ("drift_finding_id", .int item.driftFindingId)]

def dropFieldLog (item : UnknownFieldMatch) : LogPayload :=
  [("stage", .str "schema_drift_policy_drop_field_applied"), ("stream_id", .int b.streamId),
   ("field_path", .str item.enrichedPath), ("extracted_path", .str item.extractedPath),
   ("sensitive", .bool item.isSensitive), ("sensitivity_class", optStr item.sensitivityClass),
   ("drift_finding_id", .int item.driftFindingId)]

/-- The branch of `apply_schema_drift_policy_to_batch` for one batch action. -/
def applyAction (base : SchemaDriftPolicyResult) :
    Policy → SchemaDriftPolicyResult × List LogPayload
  | .passThrough =>
    (base, [b.actionLog .passThrough
      [("unknown_normal_paths", pathTexts (b.unknownFields.filter (!·.isSensitive))),
       ("unknown_sensitive_paths", pathTexts (b.unknownFields.filter (·.isSensitive)))]])
  | .requireReview =>
    ({ base with reviewFields := b.reviewed },
      b.reviewed.map b.reviewLog)
  | .autoProtect =>
    ({ base with ephemeralProtectionRules := b.autoProtected.map fun item =>
        b.ephemeralRule item (autoProtectModeForClass item.sensitivityClass) },
      b.autoProtected.map b.autoProtectLog ++
      (if b.autoProtected.isEmpty then []
       else [b.actionLog .autoProtect
        [("protected_paths", pathTexts b.autoProtected),
         ("modes", .obj (b.autoProtected.foldl (fun ms item => Dict.set item.enrichedPath
           (.str (autoProtectModeForClass item.sensitivityClass).name) ms) []))]]))
  | .dropField =>
    ({ base with ephemeralProtectionRules :=
        b.dropped.map fun item => b.ephemeralRule item .dropField },
      b.dropped.map b.dropFieldLog ++
      (if b.dropped.isEmpty then []
       else [b.actionLog .dropField [("dropped_paths", pathTexts b.dropped)]]))
  | .quarantine =>
    let type := policyType (b.quarantined.any (·.isSensitive))
    ({ base with shouldQuarantine := true, quarantinePolicyType := some type },
      [b.actionLog .quarantine
        [("policy_type", .str type), ("field_paths", pathTexts b.quarantined),
         ("drift_finding_ids", .arr (b.quarantined.map fun item => .int item.driftFindingId))]])

/-- `apply_schema_drift_policy_to_batch`. -/
def applySchemaDriftPolicyToBatch : SchemaDriftPolicyResult × List LogPayload :=
  let result : SchemaDriftPolicyResult := { enabled := b.policyEnabled, config := b.config }
  if !b.policyEnabled || !b.hasDb || b.enrichedEvents.isEmpty then (result, [])
  else
    let result := { result with unresolvedPaths := b.unresolvedPaths }
    match b.batchAction with
    | none => (result, b.resolutionLogs)
    | some action =>
      let out := b.applyAction
        { result with batchAction := some action, unknownFields := b.unknownFields } action
      (out.1, b.resolutionLogs ++ out.2)

end DriftBatch

end SchemaDrift
