import DataRelay.Enrichment.RuleExecutor
import DataRelay.Enrichment.TraceAgreement
import Mathlib.Data.Multiset.MapFold
import Mathlib.Data.Multiset.AddSub

/-! The check of an enrichment before it is stored, read against the executor: which of the rules
and static fields the check looks at are run. -/
namespace Enrichment
open PyText

/-- An error of `_validate_rule_dict` or of `validate_enrichment_json`. Warnings never decide
whether an enrichment is accepted. -/
structure ValidationError where
  code : String
  message : String
  ruleType : Option String
  targetField : Option String := none
  field : Option String := none
  deriving DecidableEq

/-- What the check takes from elsewhere beside the text of a value: the field references a pattern
finds in an expression, the error of a pattern that does not compile, and `int`. -/
structure Validator where
  engines : Engines
  fieldRefs : String → List String
  patternError : String → Option String
  toInt : Json → Option ℤ

/-- `_RESERVED_TOP_LEVEL`. -/
def reservedTopLevel : List String :=
  ["__rules", "__computed", "__preview", "__enrichment_meta", "advanced_fields"]

def normalizeFormats : List String := ["iso8601", "iso_8601", "lowercase", "uppercase", "trim"]

namespace Validator

variable (V : Validator)

/-- `str(a or b or "").strip()`. -/
def text (rule : Json.Members) (keys : List String) : String := strip (textOf V.engines rule keys)

/-- The text in an f-string with `!r`. -/
def quote (s : String) : String := V.engines.quoted (.str s)

/-- The target as an issue names it: none if it is empty. -/
def named (target : String) : Option String := if target.isEmpty then none else some target

/-- `validate_calculated_expression`. -/
def calculatedErrors (expression : String) (target : String) : List ValidationError :=
  let expr := strip expression
  if expr.isEmpty then
    [⟨"calculated_expression_empty", "Calculated expression is required", some "calculated",
      named target, some "expression"⟩]
  else
    (if expr.toList.count '(' = expr.toList.count ')' then []
      else [⟨"calculated_expression_malformed", "Unbalanced parentheses in expression",
        some "calculated", named target, some "expression"⟩]) ++
    ((V.fieldRefs expr).filter fun ref => !isValidFieldPath ref).map fun ref =>
      ⟨"invalid_field_path", "Invalid field reference " ++ V.quote ref, some "calculated",
        named target, some "expression"⟩

/-- A field that must be there and must be a path. -/
def pathErrors (type : RuleType) (target path missing missingText invalidText field : String) :
    List ValidationError :=
  if path.isEmpty then [⟨missing, missingText, some type.text, named target, some field⟩]
  else if isValidFieldPath path then []
  else [⟨"invalid_field_path", invalidText ++ V.quote path, some type.text, named target,
    some field⟩]

/-- The checks of one type of rule. -/
def typeErrors (type : RuleType) (rule : Json.Members) (target : String) : List ValidationError :=
  match type with
  | .static => []
  | .calculated => V.calculatedErrors (textOf V.engines rule ["expression"]) target
  | .lookup =>
    let table := V.text rule ["lookup_table", "lookupTable"]
    (if table.isEmpty then
      [⟨"missing_lookup_table", "Lookup table is required", some "lookup", named target,
        some "lookup_table"⟩]
    else if Dict.has table tables || Dict.has (normalizeTableName table) tables then []
    else [⟨"invalid_lookup_table", "Unknown lookup table " ++ V.quote table, some "lookup",
      named target, some "lookup_table"⟩]) ++
    V.pathErrors .lookup target (V.text rule ["key_field", "lookup_key_field", "lookupKeyField"])
      "missing_lookup_key_field" "Lookup key field is required" "Invalid lookup key field "
      "lookup_key_field"
  | .conditional =>
    match Dict.get? "conditions" rule with
    | some (.arr (_ :: _)) => []
    | _ => [⟨"conditional_invalid", "At least one condition is required", some "conditional",
      named target, some "conditions"⟩]
  | .normalize =>
    let format := firstTrue rule ["format", "normalizeFormat"]
    let fmt := lower (strip (if Runner.truthy format then V.engines.str format else "iso8601"))
    V.pathErrors .normalize target
      (V.text rule ["source_field", "normalizeSourceField", "sourceField"])
      "missing_source_field" "Normalize source field is required"
      "Invalid normalize source field " "source_field" ++
    if fmt ∈ normalizeFormats then []
    else [⟨"invalid_normalize_format", "Unsupported normalize format " ++ V.quote fmt,
      some "normalize", named target, some "format"⟩]
  | .jsonata =>
    if (V.text rule ["expression"]).isEmpty then
      [⟨"jsonata_expression_required", "JSONata expression is required", some "jsonata",
        named target, some "expression"⟩]
    else []
  | .regexExtract =>
    let pattern := V.text rule ["pattern"]
    let group := ((Dict.get? "group" rule).or (Dict.get? "capture_group" rule)).getD (.int 1)
    (if (V.text rule ["source_path", "path"]).isEmpty then
      [⟨"regex_source_required", "Regex source path is required", some "regex_extract",
        named target, some "source_path"⟩]
    else []) ++
    (if pattern.isEmpty then
      [⟨"regex_pattern_required", "Regex pattern is required", some "regex_extract", named target,
        some "pattern"⟩]
    else match V.patternError pattern with
      | none => []
      | some error => [⟨"regex_pattern_invalid", "Invalid regex pattern: " ++ error,
        some "regex_extract", named target, some "pattern"⟩]) ++
    if (V.toInt group).getD (-1) < 1 then
      [⟨"regex_group_invalid", "Regex capture group must be a positive integer",
        some "regex_extract", named target, some "group"⟩]
    else []

/-- The errors of `_validate_rule_dict`. -/
def ruleErrors (rule : Json.Members) (defaultTarget : Option String) : List ValidationError :=
  let ruleType := lower (V.text rule ["type", "mode"])
  match RuleType.ofText ruleType with
  | none => [⟨"invalid_rule_type", "Unsupported rule type " ++ V.quote ruleType,
      named ruleType, none, none⟩]
  | some type =>
    let name := firstTrue rule ["target_field", "fieldName", "field_name"]
    let target := strip (V.engines.str (if Runner.truthy name then name
      else .str (defaultTarget.getD "")))
    V.pathErrors type target target "missing_target_field" "Target field is required"
      "Invalid target field path " "target_field" ++
    if Dict.get? "enabled" rule = some (.bool false) then [] else V.typeErrors type rule target

/-! ### What the check looks at -/

/-- The typed objects directly in the enrichment, each with its key for a default target. -/
def topLevelRules (enrichment : Json.Members) : List (Json.Members × Option String) :=
  enrichment.filterMap fun m =>
    if m.1 ∈ reservedTopLevel then none
    else
      match m.2 with
      | .obj rule => if Dict.has "type" rule then some (rule, some m.1) else none
      | _ => none

/-- The rules under one entry of `__rules`. -/
def entryItems (key : String) (value : Json) : List (Json.Members × Option String) :=
  match value with
  | .obj rule => if Dict.has "type" rule then [(rule, some key)] else []
  | .arr items =>
    items.filterMap fun item =>
      match item with
      | .obj rule =>
        some (match RuleType.ofText (lower (strip key)) with
          | some type =>
            if Dict.has "type" rule then rule else Dict.set "type" (.str type.text) rule
          | none => rule, none)
      | _ => none
  | _ => []

/-- The rule of one item of `advanced_fields`. -/
def advancedItem (item : Json) : Option (Json.Members × Option String) :=
  match item with
  | .obj fields =>
    let mode := lower (V.text fields ["mode"])
    if mode = "jsonata" ∨ mode = "regex_extract" then
      some (Dict.set "target_field" (.str (V.text fields ["target_field", "output_field", "field"]))
        (Dict.set "type" (.str mode) fields), none)
    else none
  | _ => none

def rulesItems (enrichment : Json.Members) : List (Json.Members × Option String) :=
  match Dict.get? "__rules" enrichment with
  | some (.obj rules) => rules.flatMap fun m => entryItems m.1 m.2
  | _ => []

def advancedItems (enrichment : Json.Members) : List (Json.Members × Option String) :=
  match Dict.get? "advanced_fields" enrichment with
  | some (.arr items) => items.filterMap V.advancedItem
  | _ => []

/-- `_iter_rules_from_enrichment`. -/
def iterRules (enrichment : Json.Members) : List (Json.Members × Option String) :=
  topLevelRules enrichment ++ rulesItems enrichment ++ V.advancedItems enrichment

/-- The names of the static fields the check looks at. -/
def staticFields (enrichment : Json.Members) : List String :=
  enrichment.filterMap fun m =>
    if m.1 ∈ reservedTopLevel then none
    else
      match m.2 with
      | .obj fields => if Dict.has "type" fields then none else some m.1
      | _ => some m.1

/-- The errors about a static field. -/
def staticErrors (key : String) : List ValidationError :=
  if (strip key).isEmpty then
    [⟨"invalid_static_field", "Static enrichment field name is required", some "static", none,
      some "fieldName"⟩]
  else if isValidFieldPath key then []
  else [⟨"invalid_field_path", "Invalid static field path " ++ V.quote key, some "static",
    some key, some "fieldName"⟩]

/-- `validate_enrichment_json(enrichment).ok`. -/
def Accepts (enrichment : Json.Members) : Prop :=
  (∀ key ∈ staticFields enrichment, V.staticErrors key = []) ∧
    ∀ item ∈ V.iterRules enrichment, V.ruleErrors item.1 item.2 = []

instance (enrichment : Json.Members) : Decidable (V.Accepts enrichment) :=
  inferInstanceAs (Decidable (_ ∧ _))

/-- `rule.get("enabled") is not False`. -/
def enabled (item : Json.Members × Option String) : Bool :=
  Dict.get? "enabled" item.1 ≠ some (.bool false)

/-- The rule an item is run as. -/
def asRule (item : Json.Members × Option String) : Option Rule :=
  normalizeRuleDict V.engines item.1 item.2

/-- The check and the executor have the same items: the same static fields, and the same enabled
rules as often as they are there. -/
def SameItems (enrichment : Json.Members) : Prop :=
  (((splitStaticFields V.engines enrichment).map Prod.fst : List String) : Multiset String) =
    (staticFields enrichment : Multiset String) ∧
  (((V.iterRules enrichment).filter enabled).map V.asRule : Multiset (Option Rule)) =
    ((iterAdvancedRules V.engines enrichment).map some : Multiset (Option Rule))

/-- The name of a member that is no typed object. -/
def untyped (m : String × Json) : Option String :=
  match m.2 with
  | .obj fields => if Dict.has "type" fields then none else some m.1
  | _ => some m.1

/-- The static fields that the check passes over and the executor writes. -/
def hiddenFields (enrichment : Json.Members) : List String :=
  (enrichment.filter fun m => m.1 = "__preview" ∨ m.1 = "__enrichment_meta").filterMap untyped

/-- The rules `__computed` spells out. -/
def computedRules (enrichment : Json.Members) : List Rule :=
  match Dict.get? "__computed" enrichment with
  | some (.obj computed) => computed.filterMap fun m => computedRule m.1 m.2
  | _ => []

/-! ### What the executor makes of it -/

variable {V}

/-- An enabled rule the check finds nothing wrong with has a type and a target, and is a rule to the
executor too. -/
theorem asRule_of_accepted {item : Json.Members × Option String}
    (h : V.ruleErrors item.1 item.2 = []) (henabled : enabled item = true) :
    ∃ rule, V.asRule item = some rule := by
  obtain ⟨rule, defaultTarget⟩ := item
  simp only [enabled, decide_eq_true_eq] at henabled
  unfold ruleErrors at h
  unfold asRule normalizeRuleDict
  dsimp only [text] at h ⊢
  generalize strip (V.engines.str (if Runner.truthy
    (firstTrue rule ["target_field", "fieldName", "field_name"]) then
      firstTrue rule ["target_field", "fieldName", "field_name"]
    else .str (defaultTarget.getD ""))) = target at h ⊢
  cases htype : RuleType.ofText (lower (strip (textOf V.engines rule ["type", "mode"]))) with
  | none => simp [htype] at h
  | some type =>
    simp only [htype, List.append_eq_nil_iff] at h
    obtain ⟨htarget, -⟩ := h
    unfold pathErrors at htarget
    dsimp only
    split_ifs at htarget with hempty hvalid
    rw [if_neg hempty, if_neg henabled]
    exact ⟨_, rfl⟩

theorem asRule_of_disabled {item : Json.Members × Option String} (h : enabled item = false) :
    V.asRule item = none := by
  obtain ⟨rule, defaultTarget⟩ := item
  simp only [enabled, decide_eq_false_iff_not, not_not] at h
  unfold asRule normalizeRuleDict
  dsimp only
  split
  · rfl
  · rw [if_pos h, ite_self]

/-- The enabled items of an accepted enrichment are its rules, one each. -/
theorem map_asRule {items : List (Json.Members × Option String)}
    (h : ∀ item ∈ items, V.ruleErrors item.1 item.2 = []) :
    (items.filter enabled).map V.asRule = (items.filterMap V.asRule).map some := by
  induction items with
  | nil => rfl
  | cons item items ih =>
    have hrest := ih fun other hother => h other (List.mem_cons_of_mem _ hother)
    cases henabled : enabled item with
    | true =>
      obtain ⟨rule, hrule⟩ := asRule_of_accepted (h item List.mem_cons_self) henabled
      rw [List.filter_cons_of_pos henabled, List.map_cons, hrule, hrest,
        List.filterMap_cons_some hrule, List.map_cons]
    | false =>
      rw [List.filter_cons_of_neg (by rw [henabled]; exact Bool.false_ne_true), hrest,
        List.filterMap_cons_none (asRule_of_disabled henabled)]

theorem entryRules_eq (key : String) (value : Json) :
    entryRules V.engines key value = (entryItems key value).filterMap V.asRule := by
  cases value with
  | obj rule =>
    simp only [entryRules, entryItems]
    split_ifs with htype
    · cases hrule : normalizeRuleDict V.engines rule (some key) <;> simp [asRule, hrule]
    · rfl
  | arr items =>
    simp only [entryRules, entryItems, List.filterMap_filterMap]
    apply List.filterMap_congr
    intro item _
    cases item <;> rfl
  | _ => rfl

theorem advancedFieldRule_eq (item : Json) :
    advancedFieldRule V.engines item = (V.advancedItem item).bind V.asRule := by
  cases item with
  | obj fields =>
    unfold advancedFieldRule advancedItem
    dsimp only [text]
    split <;> rfl
  | _ => rfl

variable (V) in
/-- The rules of the executor: those of the items under `__rules`, those `__computed` spells out,
and those of `advanced_fields`. -/
theorem iterAdvancedRules_eq (enrichment : Json.Members) :
    iterAdvancedRules V.engines enrichment =
      (rulesItems enrichment).filterMap V.asRule ++ computedRules enrichment ++
        (V.advancedItems enrichment).filterMap V.asRule := by
  unfold iterAdvancedRules computedRules
  congr 1
  · congr 1
    unfold rulesItems
    cases Dict.get? "__rules" enrichment with
    | none => rfl
    | some value =>
      cases value with
      | obj rules =>
        dsimp only
        rw [List.filterMap_flatMap]
        apply List.flatMap_congr
        intro m _
        exact entryRules_eq m.1 m.2
      | _ => rfl
  · unfold advancedItems
    cases Dict.get? "advanced_fields" enrichment with
    | none => rfl
    | some value =>
      cases value with
      | arr items =>
        dsimp only
        rw [List.filterMap_filterMap]
        apply List.filterMap_congr
        intro item _
        exact advancedFieldRule_eq item
      | _ => rfl

theorem splitStaticFields_fst (E : Engines) (enrichment : Json.Members) :
    (splitStaticFields E enrichment).map Prod.fst =
      (enrichment.filter fun m => m.1 ∉ reservedKeys).filterMap untyped := by
  rw [splitStaticFields, List.map_filterMap, List.filterMap_filter]
  apply List.filterMap_congr
  rintro ⟨k, value⟩ _
  by_cases hk : k ∈ reservedKeys
  · simp [hk]
  · cases value with
    | obj fields => by_cases htype : Dict.has "type" fields = true <;> simp [untyped, hk, htype]
    | _ => simp [untyped, hk]

/-- The check passes over two keys more than the executor. -/
theorem staticFields_eq (enrichment : Json.Members) :
    staticFields enrichment = ((enrichment.filter fun m => m.1 ∉ reservedKeys).filter fun m =>
      !decide (m.1 = "__preview" ∨ m.1 = "__enrichment_meta")).filterMap untyped := by
  rw [staticFields, List.filter_filter, List.filterMap_filter]
  apply List.filterMap_congr
  rintro ⟨k, value⟩ _
  have hreserved : k ∈ reservedTopLevel ↔
      k ∈ reservedKeys ∨ k = "__preview" ∨ k = "__enrichment_meta" := by
    simp only [reservedTopLevel, reservedKeys, List.mem_cons, List.not_mem_nil, or_false]
    tauto
  by_cases hk : k ∈ reservedTopLevel
  · have hnot := hreserved.1 hk
    simp only [hk, if_true]
    rw [if_neg]
    simp only [Bool.and_eq_true, Bool.not_eq_true', decide_eq_false_iff_not, decide_eq_true_eq]
    tauto
  · have hnot := mt hreserved.2 hk
    simp only [hk, if_false]
    rw [if_pos]
    · rfl
    · simp only [Bool.and_eq_true, Bool.not_eq_true', decide_eq_false_iff_not, decide_eq_true_eq]
      tauto

theorem hiddenFields_eq (enrichment : Json.Members) :
    hiddenFields enrichment = ((enrichment.filter fun m => m.1 ∉ reservedKeys).filter fun m =>
      m.1 = "__preview" ∨ m.1 = "__enrichment_meta").filterMap untyped := by
  rw [hiddenFields, List.filter_filter]
  congr 1
  apply List.filter_congr
  rintro ⟨k, value⟩ _
  have hpassed : k = "__preview" ∨ k = "__enrichment_meta" → k ∉ reservedKeys := by
    rintro (rfl | rfl) <;> decide
  by_cases hk : k = "__preview" ∨ k = "__enrichment_meta"
  · simp [hk, hpassed hk]
  · simp [hk]

/-- The executor's static fields are those of the check and the hidden ones. -/
theorem splitStaticFields_names (E : Engines) (enrichment : Json.Members) :
    (((splitStaticFields E enrichment).map Prod.fst : List String) : Multiset String) =
      (staticFields enrichment : Multiset String) + (hiddenFields enrichment : Multiset String) := by
  rw [splitStaticFields_fst, staticFields_eq, hiddenFields_eq, Multiset.coe_add,
    Multiset.coe_eq_coe, ← List.filterMap_append]
  exact ((List.perm_append_comm.trans (List.filter_append_perm _ _)).filterMap untyped).symm

/-- Of an accepted enrichment the check and the executor have the same items if, and only if, no
static field is hidden from the check and the rules of the typed objects that stand directly in
the enrichment are, as often as they are there, those that `__computed` spells out. -/
theorem sameItems_iff (V : Validator) (enrichment : Json.Members) (h : V.Accepts enrichment) :
    V.SameItems enrichment ↔ hiddenFields enrichment = [] ∧
      ((topLevelRules enrichment).filterMap V.asRule : Multiset Rule) =
        (computedRules enrichment : Multiset Rule) := by
  rw [SameItems, splitStaticFields_names, add_eq_left, Multiset.coe_eq_zero, map_asRule h.2,
    iterRules, List.filterMap_append, List.filterMap_append, iterAdvancedRules_eq,
    ← Multiset.map_coe, ← Multiset.map_coe, (Multiset.map_injective (Option.some_injective _)).eq_iff,
    ← Multiset.coe_add, ← Multiset.coe_add, ← Multiset.coe_add, ← Multiset.coe_add,
    add_left_inj, add_comm, add_right_inj]

/-- A check without pattern engines, over the plain executor. -/
def bareValidator : Validator where
  engines := bareEngines
  fieldRefs _ := []
  patternError _ := none
  toInt v :=
    match v with
    | .int i => some i
    | _ => none

/-- A rule that writes a level in lower case. -/
def levelRule : Json :=
  .obj [("type", .str "normalize"), ("source_field", .str "severity"), ("format", .str "lowercase")]

/-- The rule stands under `__rules`, beside a static field. -/
def nestedLevel : Json.Members :=
  [("vendor", .str "Acme"), ("__rules", .obj [("level", levelRule)])]

theorem nestedLevel_sameItems : bareValidator.SameItems nestedLevel :=
  (sameItems_iff bareValidator nestedLevel (by decide +kernel)).2 ⟨by decide +kernel, rfl⟩

/-- The same rule directly in the enrichment is checked and accepted, and never run. -/
theorem topLevelRule_ignored :
    bareValidator.Accepts [("level", levelRule)] ∧
      ¬ bareValidator.SameItems [("level", levelRule)] := by
  refine ⟨by decide +kernel, ?_⟩
  rintro ⟨-, hrules⟩
  have hcard := congrArg Multiset.card hrules
  exact absurd hcard (by decide +kernel)

end Validator

end Enrichment
