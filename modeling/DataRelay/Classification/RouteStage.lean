import DataRelay.Dedup.Queue
import DataRelay.Lib.LetterCase

/-! The classification of a route's batch: a level from the classes of the shared findings, by
rule or by default, raised by the overrides of the route and stamped on every event. -/
namespace Classification
open Delivery Dedup

def classificationLevels : List String := ["PUBLIC", "INTERNAL", "CONFIDENTIAL", "RESTRICTED"]

def normalizeLevel (level : String) : Option String :=
  let raw := PyText.upper (PyText.strip level)
  if raw ∈ classificationLevels then some raw else none

/-- `max_level`; the rank of a level is its place in the list. -/
def maxLevel (levels : List String) : String :=
  if levels.isEmpty then "INTERNAL"
  else ((levels.filterMap normalizeLevel).argmax classificationLevels.idxOf).getD "PUBLIC"

/-- `DEFAULT_SENSITIVITY_CLASSIFICATION`. -/
def defaultSensitivityClassification : String → Option String
  | "secret" => some "RESTRICTED"
  | "pii" => some "CONFIDENTIAL"
  | "security_metadata" => some "INTERNAL"
  | _ => none

def defaultLevelFromFindings (findingClasses : List String) : String :=
  maxLevel (findingClasses.filterMap defaultSensitivityClassification)

def supportedRuleConditionClasses : List String := ["secret", "pii", "security_metadata"]

structure RouteClassificationRuleEntry where
  conditionJson : Json.Members
  classificationLevel : String
  enabled : Bool := true
  deriving DecidableEq

def ruleConditionMatches (condition : Json.Members) (findingClasses : List String) : Bool :=
  match (Dict.get? "sensitivity_class" condition).bind scalarText with
  | none => false
  | some required =>
    decide (required ∈ supportedRuleConditionClasses) && decide (required ∈ findingClasses)

/-- The level `resolve_classification_level` answers: explicit rules go before the default. -/
def resolveClassificationLevel (findingClasses : List String)
    (rules : List RouteClassificationRuleEntry) : String :=
  let matched := rules.filterMap fun rule =>
    if rule.enabled && ruleConditionMatches rule.conditionJson findingClasses then
      normalizeLevel rule.classificationLevel
    else none
  if matched.isEmpty then defaultLevelFromFindings findingClasses else maxLevel matched

/-- `stamp_classification_level`. -/
def stampClassificationLevel (level : String) (event : Event) : Event :=
  if Dict.has "classification_level" event then
    Dict.set "classification_level_gdc" (.str level) event
  else Dict.set "classification_level" (.str level) event

structure RouteClassificationConfig where
  rules : List RouteClassificationRuleEntry := []
  overrideLevels : List String := []
  deriving DecidableEq

namespace RouteClassificationConfig

variable (c : RouteClassificationConfig)

def effectiveLevel (level : String) : String :=
  if c.overrideLevels.isEmpty then level else maxLevel (level :: c.overrideLevels)

/-- What an event of a batch of this level looks like: an override stamps it again. -/
def stamp (level : String) (event : Event) : Event :=
  let event := stampClassificationLevel level event
  if c.effectiveLevel level = level then event
  else stampClassificationLevel (c.effectiveLevel level) event

/-- `route_classification_stage`; `findingClasses` are those of the findings the routes share. -/
def routeClassificationStage (findingClasses : List String) (events : List Event) : List Event :=
  events.map (c.stamp (resolveClassificationLevel findingClasses c.rules))

end RouteClassificationConfig

/-! ### What a stamp shows -/

theorem get?_stampClassificationLevel (level : String) (event : Event) {name : String}
    (hlevel : name ≠ "classification_level") (hgdc : name ≠ "classification_level_gdc") :
    Dict.get? name (stampClassificationLevel level event) = Dict.get? name event := by
  unfold stampClassificationLevel
  split_ifs
  · simp [hgdc.symm]
  · simp [hlevel.symm]

namespace RouteClassificationConfig

variable {c : RouteClassificationConfig}

theorem get?_stamp (level : String) (event : Event) {name : String}
    (hlevel : name ≠ "classification_level") (hgdc : name ≠ "classification_level_gdc") :
    Dict.get? name (c.stamp level event) = Dict.get? name event := by
  unfold stamp
  simp only
  split_ifs
  · exact get?_stampClassificationLevel level event hlevel hgdc
  · rw [get?_stampClassificationLevel _ _ hlevel hgdc,
      get?_stampClassificationLevel level event hlevel hgdc]

/-- An event with a level of its own shows the effective level beside it. -/
theorem stamp_of_has {event : Event} (h : Dict.has "classification_level" event = true)
    (level : String) : c.stamp level event =
      Dict.set "classification_level_gdc" (.str (c.effectiveLevel level)) event := by
  have honce : stampClassificationLevel level event =
      Dict.set "classification_level_gdc" (.str level) event := if_pos h
  unfold stamp
  simp only [honce]
  split_ifs with heq
  · rw [heq]
  · have hstill : Dict.has "classification_level"
        (Dict.set "classification_level_gdc" (.str level) event) = true := by
      simpa [Dict.has] using h
    rw [stampClassificationLevel, if_pos hstill, Dict.set_set]

/-- Any other event shows the level of its batch. -/
theorem get?_stamp_of_new {event : Event} (h : Dict.has "classification_level" event = false)
    (level : String) :
    Dict.get? "classification_level" (c.stamp level event) = some (.str level) := by
  have honce : stampClassificationLevel level event =
      Dict.set "classification_level" (.str level) event := by
    simp [stampClassificationLevel, h]
  unfold stamp
  simp only [honce]
  split_ifs
  · simp
  · have hhas : Dict.has "classification_level"
        (Dict.set "classification_level" (.str level) event) = true := by simp [Dict.has]
    rw [stampClassificationLevel, if_pos hhas]
    simp

/-- Two levels leave the same event exactly when they are the same, or the event has a level of its
own and the effective levels are. -/
theorem stamp_eq_iff {level level' : String} (event : Event) :
    c.stamp level event = c.stamp level' event ↔ level = level' ∨
      (c.effectiveLevel level = c.effectiveLevel level' ∧
        Dict.has "classification_level" event = true) := by
  cases h : Dict.has "classification_level" event with
  | true =>
    rw [stamp_of_has h, stamp_of_has h]
    constructor
    · intro heq
      have hget := congrArg (Dict.get? "classification_level_gdc") heq
      simp only [Dict.get?_set, ↓reduceIte, Option.some.injEq, Json.str.injEq] at hget
      exact .inr ⟨hget, rfl⟩
    · rintro (rfl | ⟨heq, -⟩)
      · rfl
      · rw [heq]
  | false =>
    simp only [Bool.false_eq_true, and_false, or_false]
    constructor
    · intro heq
      have hget := congrArg (Dict.get? "classification_level") heq
      rw [get?_stamp_of_new h, get?_stamp_of_new h] at hget
      simpa using hget
    · rintro rfl
      rfl

end RouteClassificationConfig

end Classification
