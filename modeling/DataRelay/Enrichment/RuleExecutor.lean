import DataRelay.Enrichment.FieldPaths
import DataRelay.Lib.LetterCase

/-! Enrichment of one event: the static fields first, then the advanced rules in order, and the
trace of the same plan that the debugger shows. -/
namespace Enrichment
open Delivery PyText

inductive RuleType where
  | static
  | calculated
  | lookup
  | conditional
  | normalize
  | jsonata
  | regexExtract
  deriving DecidableEq, Repr

namespace RuleType

def text : RuleType → String
  | static => "static"
  | calculated => "calculated"
  | lookup => "lookup"
  | conditional => "conditional"
  | normalize => "normalize"
  | jsonata => "jsonata"
  | regexExtract => "regex_extract"

def all : List RuleType :=
  [static, calculated, lookup, conditional, normalize, jsonata, regexExtract]

/-- The type a text names, as `_RULE_TYPES` has it. -/
def ofText (s : String) : Option RuleType := all.find? fun t => t.text = s

end RuleType

inductive OverridePolicy where
  | keepExisting
  | override
  | errorOnConflict
  deriving DecidableEq, Repr

def OverridePolicy.text : OverridePolicy → String
  | keepExisting => "KEEP_EXISTING"
  | override => "OVERRIDE"
  | errorOnConflict => "ERROR_ON_CONFLICT"

structure EnrichmentWarning where
  code : String
  message : String
  ruleType : Option String := none
  targetField : Option String := none
  deriving DecidableEq

structure EnrichmentFieldError where
  ruleId : Option String
  outputField : String
  errorCode : String
  errorMessage : String
  deriving DecidableEq

structure FieldTransformRuleResult where
  outputField : String
  mode : String
  ruleId : Option String
  success : Bool
  value : Json := .null
  recoveredViaDefault : Bool := false
  warningMessage : Option String := none
  errorCode : Option String := none
  errorMessage : Option String := none
  executed : Bool := true
  blocked : Bool := false
  deriving DecidableEq

/-- What leaves a function by raising: an `EnrichmentError`, or an exception that nothing here
handles. -/
inductive Raised where
  | enrichment (message : String)
  | other (message : String)
  deriving DecidableEq

/-- The operators of a condition. -/
inductive ConditionOp where
  | exists
  | contains
  | equals
  | notEquals
  deriving DecidableEq, Repr

/-- What the executor takes from elsewhere: the text and the quoted form of a value, upper case,
the clock, the expression language, the date parser, the condition syntax, and the JSONata and
regular expression transforms. An engine answers with a value or an error the executor turns into
a warning; the outer error is an exception it does not handle. -/
structure Engines where
  letterCase : CaseTable
  str : Json → String
  quoted : Json → String
  upper : String → String
  nowUtc : String
  evaluateCalculatedExpression : String → Event → Except String (Except String Json)
  isoInstant : Json → Except String (Except String String)
  parseCondition : String → Option (ConditionOp × String × String)
  evaluateFieldTransformRule : Event → Json.Members → Except String FieldTransformRuleResult

/-- `a or b or …`: the first value that is true, else the empty text. -/
def firstTrue (ms : Json.Members) (keys : List String) : Json :=
  ((keys.filterMap fun k => Dict.get? k ms).find? Runner.truthy).getD (.str "")

section Rules

variable (E : Engines)

/-- `str(a or b or "")`. -/
def textOf (ms : Json.Members) (keys : List String) : String := E.str (firstTrue ms keys)

/-- A rule as `_iter_advanced_rules` hands it on: its dictionary, which holds its type and its
target. -/
structure Rule where
  type : RuleType
  target : String
  body : Json.Members
  type_eq : Dict.get? "type" body = some (.str type.text)
  target_eq : Dict.get? "target_field" body = some (.str target)

/-- The dictionary of a rule with the two entries set. -/
def Rule.make (type : RuleType) (target : String) (fields : Json.Members) : Rule where
  type := type
  target := target
  body := Dict.set "target_field" (.str target) (Dict.set "type" (.str type.text) fields)
  type_eq := by
    have hne : "target_field" ≠ "type" := by decide
    rw [Dict.get?_set, if_neg hne, Dict.get?_set, if_pos rfl]
  target_eq := by rw [Dict.get?_set, if_pos rfl]

/-- `_normalize_rule_dict`. -/
def normalizeRuleDict (rule : Json.Members) (defaultTarget : Option String) : Option Rule :=
  match RuleType.ofText (lower (strip (textOf E rule ["type", "mode"]))) with
  | none => none
  | some type =>
    let named := firstTrue rule ["target_field", "fieldName", "field_name"]
    let target := strip (E.str (if Runner.truthy named then named else .str (defaultTarget.getD "")))
    if target.isEmpty then none
    else if Dict.get? "enabled" rule = some (.bool false) then none
    else some (Rule.make type target rule)

/-- The rules under one entry of `__rules`. -/
def entryRules (key : String) (value : Json) : List Rule :=
  match value with
  | .obj rule => if Dict.has "type" rule then (normalizeRuleDict E rule (some key)).toList else []
  | .arr items =>
    items.filterMap fun item =>
      match item with
      | .obj rule =>
        let merged :=
          match RuleType.ofText (lower (strip key)) with
          | some type => if Dict.has "type" rule then rule else Dict.set "type" (.str type.text) rule
          | none => rule
        normalizeRuleDict E merged none
      | _ => none
  | _ => []

/-- The rule of one entry of `__computed`. -/
def computedRule (key : String) (value : Json) : Option Rule :=
  match value with
  | .obj fields =>
    match Dict.get? "expression" fields with
    | some (.str expression) =>
      some (Rule.make .calculated key
        [("type", .null), ("target_field", .null), ("expression", .str expression),
          ("enabled", .bool true)])
    | _ => none
  | _ => none

/-- The rule of one item of `advanced_fields`. -/
def advancedFieldRule (item : Json) : Option Rule :=
  match item with
  | .obj fields =>
    let mode := lower (strip (textOf E fields ["mode"]))
    if mode = "jsonata" ∨ mode = "regex_extract" then
      let target := strip (textOf E fields ["target_field", "output_field", "field"])
      normalizeRuleDict E
        (Dict.set "target_field" (.str target) (Dict.set "type" (.str mode) fields)) none
    else none
  | _ => none

/-- `_iter_advanced_rules`. -/
def iterAdvancedRules (enrichment : Json.Members) : List Rule :=
  (match Dict.get? "__rules" enrichment with
    | some (.obj rules) => rules.flatMap fun m => entryRules E m.1 m.2
    | _ => []) ++
  (match Dict.get? "__computed" enrichment with
    | some (.obj computed) => computed.filterMap fun m => computedRule m.1 m.2
    | _ => []) ++
  (match Dict.get? "advanced_fields" enrichment with
    | some (.arr items) => items.filterMap (advancedFieldRule E)
    | _ => [])

/-- `_resolve_static_template`. -/
def resolveStaticTemplate (value : Json) : Json :=
  match value with
  | .str s =>
    if lower (String.ofList ((strip s).toList.filter (· ≠ ' '))) = "\x7b\x7bnow_utc\x7d\x7d" then
      .str E.nowUtc
    else value
  | _ => value

def reservedKeys : List String := ["__rules", "__computed", "advanced_fields"]

/-- `_split_static_fields`. -/
def splitStaticFields (enrichment : Json.Members) : Json.Members :=
  enrichment.filterMap fun m =>
    if m.1 ∈ reservedKeys then none
    else
      match m.2 with
      | .obj fields => if Dict.has "type" fields then none else some (m.1, m.2)
      | v => some (m.1, resolveStaticTemplate E v)

/-- `_validate_policy`. -/
def validatePolicy (policy : String) : Except Raised OverridePolicy :=
  match [OverridePolicy.keepExisting, .override, .errorOnConflict].find? (·.text = policy) with
  | some p => .ok p
  | none => .error (.enrichment ("Unknown override_policy " ++ E.quoted (.str policy) ++
      "; expected one of ['ERROR_ON_CONFLICT', 'KEEP_EXISTING', 'OVERRIDE']"))

variable (policy : OverridePolicy)

/-- `_should_apply`. -/
def shouldApply (target : String) (event : Event) : Except Raised Bool :=
  if policy = .override then .ok true
  else if hasFieldValue event target then
    if policy = .errorOnConflict then
      .error (.enrichment ("Enrichment field " ++ E.quoted (.str target) ++
        " conflicts with existing event field (override_policy=" ++ policy.text ++ ")"))
    else .ok false
  else .ok true

/-- One pass of the loop of `_apply_static_fields`; every value is a JSON value. -/
def applyStaticField (event : Event) (key : String) (value : Json) : Except Raised Event := do
  let target := strip key
  if target.isEmpty then return event
  if !(← shouldApply E policy target event) then return event
  if !isValidFieldPath target then return event
  if '.' ∈ target.toList then return (setFieldValue event target value).getD event
  return Dict.set target value event

/-- `_apply_static_fields`. -/
def applyStaticFields : Event → Json.Members → Except Raised Event
  | event, [] => .ok event
  | event, (key, value) :: fields => do
    applyStaticFields (← applyStaticField E policy event key value) fields

/-- What one rule leaves: the event, and what it adds to the lists of the run. -/
structure Applied where
  event : Event
  warnings : List EnrichmentWarning := []
  fieldErrors : List EnrichmentFieldError := []
  transformResults : List FieldTransformRuleResult := []
  deriving DecidableEq

/-- The event as it was, with a warning. -/
def Applied.warned (event : Event) (rule : Rule) (code message : String) : Applied where
  event := event
  warnings := [⟨code, message, some rule.type.text, some rule.target⟩]

/-- An exception of an engine that nothing handles. -/
def unhandled {α : Type} (x : Except String α) : Except Raised α := x.mapError Raised.other

/-- `get_field_value(event, field)`, then `event.get(field)`. -/
def readField (event : Event) (field : String) : Json :=
  let v := getFieldValue event field
  if v = .null then (Dict.get? field event).getD .null else v

/-- `_apply_calculated`. -/
def applyCalculated (event : Event) (rule : Rule) : Except Raised Applied := do
  if !(← shouldApply E policy rule.target event) then return { event }
  match ← unhandled (E.evaluateCalculatedExpression (textOf E rule.body ["expression"]) event) with
  | .error message => return .warned event rule "calculated_expression_failed" message
  | .ok value =>
    match setFieldValue event rule.target value with
    | some event => return { event }
    | none =>
      let message := "Could not write calculated field " ++ E.quoted (.str rule.target)
      return .warned event rule "invalid_field_path" message

def awsRegions : List (String × String) :=
  [("us-east-1", "US East (N. Virginia)"), ("us-east-2", "US East (Ohio)"),
    ("us-west-1", "US West (N. California)"), ("us-west-2", "US West (Oregon)"),
    ("eu-west-1", "EU (Ireland)"), ("eu-central-1", "EU (Frankfurt)"),
    ("ap-southeast-1", "Asia Pacific (Singapore)"), ("ap-northeast-1", "Asia Pacific (Tokyo)")]

def severityLabels : List (String × String) :=
  [("1", "low"), ("2", "medium"), ("3", "high"), ("4", "critical"), ("low", "low"),
    ("medium", "medium"), ("high", "high"), ("critical", "critical")]

def tables : List (String × List (String × String)) :=
  [("aws_regions", awsRegions), ("aws-regions", awsRegions), ("severity_labels", severityLabels),
    ("severity-labels", severityLabels), ("severity_mapping", severityLabels)]

def normalizeTableName (name : String) : String :=
  (lower (strip name)).map fun c => if c = '-' then '_' else c

/-- `lookup_value`. -/
def lookupValue (tableName key : String) : Option String :=
  let raw := strip tableName
  match (Dict.get? raw tables).or (Dict.get? (normalizeTableName raw) tables) with
  | none => none
  | some table => (Dict.get? (strip key) table).or (Dict.get? (lower (strip key)) table)

/-- `_apply_lookup`. -/
def applyLookup (event : Event) (rule : Rule) : Except Raised Applied := do
  let table := textOf E rule.body ["lookup_table", "lookupTable"]
  let keyField := strip (textOf E rule.body ["key_field", "lookup_key_field", "lookupKeyField"])
  if table.isEmpty || keyField.isEmpty then
    return .warned event rule "invalid_rule_definition"
      "Lookup rule requires lookup_table and key_field"
  if !(← shouldApply E policy rule.target event) then return { event }
  let rawKey := readField event keyField
  if rawKey = .null ∨ (strip (E.str rawKey)).isEmpty then
    return .warned event rule "lookup_key_missing"
      ("Lookup key field " ++ E.quoted (.str keyField) ++ " is missing on event")
  match lookupValue table (E.str rawKey) with
  | none =>
    let message :=
      "No lookup value for key " ++ E.quoted rawKey ++ " in table " ++ E.quoted (.str table)
    return .warned event rule "lookup_miss" message
  | some resolved => return { event := (setFieldValue event rule.target (.str resolved)).getD event }

/-- `_evaluate_condition`. -/
def evaluateCondition (condition : String) (event : Event) : Bool :=
  match E.parseCondition condition with
  | none => false
  | some (op, field, operand) =>
    let val := readField event field
    match op with
    | .exists => val ≠ .null && E.str val ≠ ""
    | .equals => E.str val = operand
    | .notEquals => E.str val ≠ operand
    | .contains => PyText.contains operand (E.str (if Runner.truthy val then val else .str ""))

/-- The loop over the conditions: the value of the first that holds, and the warnings before. -/
def firstCondition (event : Event) (rule : Rule) : List Json → Option Json × List EnrichmentWarning
  | [] => (none, [])
  | .obj item :: items =>
    let condition := textOf E item ["when"]
    if !condition.isEmpty && evaluateCondition E condition event then
      (some ((Dict.get? "then" item).getD (.str "")), [])
    else
      let (found, warnings) := firstCondition event rule items
      if !(strip condition).isEmpty && (E.parseCondition condition).isNone then
        (found, ⟨"conditional_invalid",
          "Unrecognized condition syntax: " ++ E.quoted (.str condition),
          some rule.type.text, some rule.target⟩ :: warnings)
      else (found, warnings)
  | _ :: items => firstCondition event rule items

/-- `_apply_conditional`. -/
def applyConditional (event : Event) (rule : Rule) : Except Raised Applied := do
  if !(← shouldApply E policy rule.target event) then return { event }
  match Dict.get? "conditions" rule.body with
  | some (.arr conditions) =>
    let (found, warnings) := firstCondition E event rule conditions
    let value := found.getD (firstTrue rule.body ["default", "conditionalDefault"])
    let unmatched : List EnrichmentWarning :=
      if found.isNone && (strip (E.str value)).isEmpty then
        [⟨"conditional_invalid", "No condition matched and default is empty",
          some rule.type.text, some rule.target⟩]
      else []
    return { event := (setFieldValue event rule.target value).getD event
             warnings := warnings ++ unmatched }
  | _ => return .warned event rule "conditional_invalid" "Conditional rule requires conditions list"

/-- `_normalize_value`. -/
def normalizeValue (raw : Json) (fmt : String) : Except String (Except String Json) :=
  let text := if raw = .null then "" else E.str raw
  let fmtKey := lower (strip fmt)
  if fmtKey = "lowercase" then .ok (.ok (.str (E.letterCase.lowerText text)))
  else if fmtKey = "uppercase" then .ok (.ok (.str (E.upper text)))
  else if fmtKey = "trim" then .ok (.ok (.str (strip text)))
  else if fmtKey = "iso8601" ∨ fmtKey = "iso_8601" then
    (E.isoInstant raw).map fun answer => answer.map Json.str
  else .ok (.error ("Unsupported normalize format " ++ E.quoted (.str fmt)))

/-- `_apply_normalize`. -/
def applyNormalize (event : Event) (rule : Rule) : Except Raised Applied := do
  let source :=
    strip (textOf E rule.body ["source_field", "normalizeSourceField", "sourceField"])
  let given := firstTrue rule.body ["format", "normalizeFormat"]
  let fmt := if Runner.truthy given then E.str given else "iso8601"
  if source.isEmpty then
    return .warned event rule "invalid_rule_definition" "Normalize rule requires source_field"
  if !(← shouldApply E policy rule.target event) then return { event }
  match ← unhandled (normalizeValue E (readField event source) fmt) with
  | .error message => return .warned event rule "normalize_failed" message
  | .ok value => return { event := (setFieldValue event rule.target value).getD event }

/-- `text or default`. -/
def textOr (text : Option String) (default : String) : String :=
  (text.filter (!·.isEmpty)).getD default

/-- A failed transform: the result is kept and its field error is added. -/
def Applied.failed (event : Event) (result : FieldTransformRuleResult) (code message : String) :
    Applied where
  event := event
  transformResults := [result]
  fieldErrors := [⟨result.ruleId, result.outputField, textOr result.errorCode code,
    textOr result.errorMessage message⟩]

/-- The branch of `_apply_advanced_rule` for JSONata and regular expressions. -/
def applyTransform (event : Event) (rule : Rule) : Except Raised Applied := do
  let idText := strip (textOf E rule.body ["rule_id", "id"])
  let ruleId := if idText.isEmpty then none else some idText
  let target := strip (textOf E rule.body ["target_field", "output_field", "field"])
  if target.isEmpty then
    let message := "Advanced transform output field is required."
    return .failed event
      { outputField := "", mode := rule.type.text, ruleId, success := false
        errorCode := some "TRANSFORM_OUTPUT_FIELD_REQUIRED", errorMessage := some message }
      "TRANSFORM_OUTPUT_FIELD_REQUIRED" message
  if !(← shouldApply E policy target event) then
    return { event
             transformResults := [{
               outputField := target, mode := rule.type.text, ruleId, success := true
               value := if hasFieldValue event target then getFieldValue event target else .null
               warningMessage := some (target ++ ": existing value kept by override policy.")
               executed := false, blocked := true }] }
  let result ← unhandled (E.evaluateFieldTransformRule event rule.body)
  if !result.success then
    return .failed event result "ADVANCED_TRANSFORM_FAILED" "Advanced transform failed"
  match setFieldValue event target result.value with
  | none =>
    let message := "Could not write advanced transform field " ++ E.quoted (.str target)
    return .failed event
      { result with outputField := target, success := false, errorCode := some "INVALID_FIELD_PATH"
                    errorMessage := some message, executed := true, blocked := false }
      "INVALID_FIELD_PATH" message
  | some written =>
    let used := textOr result.warningMessage (target ++ ": used default value")
    return { event := written
             transformResults := [result]
             warnings := if result.recoveredViaDefault then
               [⟨"transform_default_used", used, some rule.type.text, some target⟩] else [] }

/-- `_apply_advanced_rule`. -/
def applyAdvancedRule (event : Event) (rule : Rule) : Except Raised Applied :=
  match rule.type with
  | .calculated => applyCalculated E policy event rule
  | .lookup => applyLookup E policy event rule
  | .conditional => applyConditional E policy event rule
  | .normalize => applyNormalize E policy event rule
  | .jsonata => applyTransform E policy event rule
  | .regexExtract => applyTransform E policy event rule
  | .static =>
    .ok (.warned event rule "invalid_rule_definition"
      ("Unsupported rule type " ++ E.quoted (.str rule.type.text)))

/-- The loop over the advanced rules. -/
def applyRules : List Rule → Applied → Except Raised Applied
  | [], acc => .ok acc
  | rule :: rules, acc => do
    let a ← applyAdvancedRule E policy acc.event rule
    applyRules rules
      { event := a.event
        warnings := acc.warnings ++ a.warnings
        fieldErrors := acc.fieldErrors ++ a.fieldErrors
        transformResults := acc.transformResults ++ a.transformResults }

end Rules

/-- `execute_enrichment`. -/
def executeEnrichment (E : Engines) (event : Event) (enrichment : Json.Members)
    (overridePolicy : String) : Except Raised Applied := do
  let policy ← validatePolicy E overridePolicy
  if enrichment = [] then return { event := sanitizeDeliveryEvent event }
  let base ← applyStaticFields E policy event (splitStaticFields E enrichment)
  let out ← applyRules E policy (iterAdvancedRules E enrichment) { event := base }
  return { out with event := sanitizeDeliveryEvent out.event }

section Trace

structure EnrichmentTraceStepResult where
  stepIndex : ℕ
  ruleType : String
  targetField : String
  executed : Bool := true
  blocked : Bool := false
  beforePresent : Bool := false
  beforeValue : Json := .null
  afterPresent : Bool := false
  afterValue : Json := .null
  changed : Bool := false
  warnings : List EnrichmentWarning := []
  errorMessage : Option String := none
  deriving DecidableEq

structure EnrichmentTraceExecutionResult where
  event : Event
  steps : List EnrichmentTraceStepResult
  deriving DecidableEq

/-- A step of the plan. -/
inductive PlanStep where
  | field (target : String) (value : Json)
  | rule (rule : Rule)

namespace PlanStep

def ruleType : PlanStep → String
  | .field _ _ => "static"
  | .rule r => r.type.text

def targetField : PlanStep → String
  | .field target _ => target
  | .rule r => r.target

/-- What a step is to write where it is taken for a static field: for a rule, its dictionary. -/
def payload : PlanStep → Json
  | .field _ value => value
  | .rule r => .obj r.body

end PlanStep

variable (E : Engines) (policy : OverridePolicy)

/-- One step is carried out; the type alone decides how. -/
def applyPlanStep (current : Event) (step : PlanStep) : Except Raised Applied :=
  let asStatic : Except Raised Applied :=
    (applyStaticFields E policy current [(step.targetField, step.payload)]).map fun event =>
      { event }
  match step with
  | .field _ _ => asStatic
  | .rule r => if r.type.text = "static" then asStatic else applyAdvancedRule E policy current r

/-- `_trace_value`. -/
def traceValue (event : Event) (target : String) : Bool × Json :=
  let present := hasFieldValue event target
  (present, if present then getFieldValue event target else .null)

/-- The row of a step that was carried out. -/
def traceRow (index : ℕ) (step : PlanStep) (before : Event) (a : Applied)
    (errorMessage : Option String) : EnrichmentTraceStepResult :=
  let (beforePresent, beforeValue) := traceValue before step.targetField
  let (afterPresent, afterValue) := traceValue a.event step.targetField
  let kept := policy = .keepExisting && beforePresent && errorMessage.isNone &&
    a.fieldErrors.isEmpty && a.warnings.isEmpty && beforePresent = afterPresent &&
    beforeValue = afterValue
  let blocked := (a.transformResults.getLast?.map (·.blocked)).getD kept
  { stepIndex := index
    ruleType := step.ruleType
    targetField := step.targetField
    executed := (a.transformResults.getLast?.map (·.executed)).getD !blocked
    blocked
    beforePresent, beforeValue, afterPresent, afterValue
    changed := beforePresent ≠ afterPresent ∨ beforeValue ≠ afterValue
    warnings := a.warnings
    errorMessage }

/-- The loop of the trace: the event it ends with and the rows. Once a step has failed, the steps
after it are listed as blocked. -/
def traceLoop (throughStep : Option ℤ) : List PlanStep → (index : ℕ) → (failed : Bool) →
    Event → Except Raised (Event × List EnrichmentTraceStepResult)
  | [], _, _, current => .ok (current, [])
  | step :: plan, index, failed, current =>
    if throughStep.any fun last => decide (last < (index : ℤ)) then .ok (current, [])
    else if failed then do
      let (event, rows) ← traceLoop throughStep plan (index + 1) true current
      return (event, { stepIndex := index, ruleType := step.ruleType
                       targetField := step.targetField, executed := false, blocked := true } :: rows)
    else
      match applyPlanStep E policy current step with
      | .error (.other message) => .error (.other message)
      | .error (.enrichment message) => do
        let (event, rows) ← traceLoop throughStep plan (index + 1) true current
        return (event, traceRow policy index step current { event := current } (some message) :: rows)
      | .ok a => do
        let error := a.fieldErrors.head?.map (·.errorMessage)
        let (event, rows) ← traceLoop throughStep plan (index + 1) error.isSome a.event
        return (event, traceRow policy index step current a error :: rows)

/-- The static fields first, then the rules. -/
def tracePlan (enrichment : Json.Members) : List PlanStep :=
  (splitStaticFields E enrichment).map (fun m => .field m.1 m.2) ++
    (iterAdvancedRules E enrichment).map .rule

/-- `execute_enrichment_trace`. -/
def executeEnrichmentTrace (event : Event) (enrichment : Json.Members) (overridePolicy : String)
    (throughStep : Option ℤ) : Except Raised EnrichmentTraceExecutionResult := do
  let policy ← validatePolicy E overridePolicy
  let (current, steps) ← traceLoop E policy throughStep (tracePlan E enrichment) 0 false event
  return { event := sanitizeDeliveryEvent current, steps }

end Trace

end Enrichment
