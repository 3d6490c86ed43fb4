import DataRelay.Protection.Engine

/-! Protection of a whole batch: every rule in force on every event, with the warnings
collected, and the scan for values that need a token. -/
namespace Protection
open JsonPath Delivery

/-- `_collect_leaf_values_at_segments`. -/
def collectLeafValuesAtSegments : List Sel → Json → List Json
  | .index i :: rest, .arr xs =>
    match (Json.resolveIndex xs.length i).bind (xs[·]?) with
    | none => []
    | some item => if rest.isEmpty then [item] else collectLeafValuesAtSegments rest item
  | .wild :: rest, .arr xs => xs.flatMap (collectLeafValuesAtSegments rest)
  | .key k :: [], .obj ms => (Dict.get? k ms).toList
  | .key k :: .wild :: rest, .obj ms =>
    match Dict.get? k ms with
    | some (.arr items) => items.flatMap (collectLeafValuesAtSegments rest)
    | _ => []
  | .key k :: rest, .obj ms =>
    match Dict.get? k ms with
    | some (.obj c) => collectLeafValuesAtSegments rest (.obj c)
    | some (.arr c) => collectLeafValuesAtSegments rest (.arr c)
    | _ => []
  | _, _ => []

/-- What one rule asks the vault for on one event. -/
def tokenizationTargetsOf (rule : Rule) (event : Event) : Except String (List (String × String)) := do
  let segments ← parseProtectionPath rule.fieldPath
  if segments.isEmpty then return []
  else if ← legacyPathHasLiteralDottedMember event rule.fieldPath segments then return []
  else
    return (collectLeafValuesAtSegments segments (.obj event)).filterMap fun value =>
      match value with
      | .str s =>
        if (PyText.strip s).isEmpty then none else some (rule.fieldPath, PyText.strip s)
      | _ => none

/-- `collect_tokenization_targets`; an error is raised. -/
def collectTokenizationTargets (events : List Event) (rules : List Rule) :
    Except String (List (String × String)) := do
  let enabled := rules.filter fun r => r.enabled && decide (r.protectionMode = .tokenization)
  let items ← events.mapM fun event => enabled.mapM (tokenizationTargetsOf · event)
  return items.flatten.flatten.eraseDups

/-- One event on its way through the rules. -/
structure EventState where
  event : Event
  masked : ℕ := 0
  warnings : List ProtectionFieldWarning := []

/-- The members of an object. -/
def membersOf : Json → Event
  | .obj ms => ms
  | _ => []

/-- The loop over the rules for one event; an error is raised. -/
def protectEvent (ctx : ModeContext) : List Rule → EventState → Except String EventState
  | [], s => .ok s
  | rule :: rules, s => do
    let out ← applyRuleToEvent ctx s.event rule
    protectEvent ctx rules
      ⟨membersOf out.event, s.masked + out.count, s.warnings ++ out.warning.toList⟩

structure ProtectBatchResult where
  events : List Event
  maskedFieldApplications : ℕ := 0
  rulesApplied : ℕ := 0
  warnings : List ProtectionFieldWarning := []

/-- `protect_batch`; `switch` is `protection_enabled`. -/
def protectBatch (ctx : ModeContext) (switch : Bool) (events : List Event)
    (rules ephemeral : List Rule) : Except String ProtectBatchResult :=
  let enabled := rulesInForce rules ephemeral
  if events.isEmpty then .ok { events := [] }
  else if !switch || enabled.isEmpty then .ok { events }
  else do
    let states ← events.mapM fun event => protectEvent ctx enabled { event }
    return {
      events := states.map (·.event)
      maskedFieldApplications := (states.map (·.masked)).sum
      rulesApplied := enabled.length
      warnings := states.flatMap (·.warnings) }

end Protection
