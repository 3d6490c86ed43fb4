import DataRelay.Lib.LetterCase
import DataRelay.Protection.Modes
import DataRelay.Sources.TransportMetadata

/-! AI policy rules on prompts and responses: which text of a payload is inspected, which rules
it meets, and what the strongest of them does to the payload. -/
namespace AiPolicy
open Runner PyText

inductive Target where
  | prompt
  | response
  deriving DecidableEq, Repr

def Target.text : Target → String
  | .prompt => "prompt"
  | .response => "response"

inductive InspectionType where
  | regex
  | keyword
  | pii
  | secretPattern
  | sensitiveContent
  deriving DecidableEq, Repr

inductive ActionType where
  | allow
  | deny
  | mask
  | redact
  | block
  deriving DecidableEq, Repr

def ActionType.text : ActionType → String
  | .allow => "allow"
  | .deny => "deny"
  | .mask => "mask"
  | .redact => "redact"
  | .block => "block"

/-- `_AI_POLICY_ACTION_SEVERITY`. -/
def ActionType.severity : ActionType → ℕ
  | .allow => 0
  | .mask => 1
  | .redact => 2
  | .deny => 3
  | .block => 4

/-- `AI_POLICY_BLOCKING_ACTIONS`. -/
def ActionType.Blocking (a : ActionType) : Prop := a = .deny ∨ a = .block

instance (a : ActionType) : Decidable a.Blocking := inferInstanceAs (Decidable (_ ∨ _))

inductive SensitivityClass where
  | pii
  | secret
  | securityMetadata
  | other
  deriving DecidableEq, Repr

/-- A row of `ai_policy_rules`. -/
structure AiPolicyRule where
  id : ℤ
  aiStreamId : ℤ
  name : String
  enabled : Bool := true
  target : Target
  inspectionType : InspectionType
  conditionJson : Json.Members
  actionType : ActionType
  deriving DecidableEq

/-- A float by its printed form and the two comparisons made with it. -/
structure PyFloat where
  repr : String
  belowZero : Bool := false
  aboveTwo : Bool := false
  deriving DecidableEq

/-- The parts of the runtime the policy code calls: `str` of a list or dictionary, letter case,
`re.search` and `re.sub` (`none` for `re.error`), the sensitive data detection by the classes it
finds, and `float` and `int` of a value (`none` when they raise). -/
structure Runtime where
  text : Sources.TextRuntime := {}
  letters : CaseTable
  search : String → Bool → String → Option Bool := fun _ _ _ => none
  sub : String → Bool → (String → String) → String → Option String := fun _ _ _ _ => none
  findingClasses : String → List SensitivityClass := fun _ => []
  float : Json → Option PyFloat := fun _ => none
  int : Json → Option ℤ := fun _ => none

variable (rt : Runtime)

/-- `str(value or "")`. -/
def Runtime.strOrEmpty (v : Json) : String := if truthy v then rt.text.str v else ""

/-! ### Evaluating the rules -/

/-- `bool(condition.get("ignore_case", True))`. -/
def ignoreCase (condition : Json.Members) : Bool :=
  truthy ((Dict.get? "ignore_case" condition).getD (.bool true))

def keywordOf (condition : Json.Members) : String := rt.strOrEmpty (getOrNull "keyword" condition)

def patternOf (condition : Json.Members) : String := rt.strOrEmpty (getOrNull "pattern" condition)

/-- `_ai_regex_matches`. -/
def aiRegexMatches (condition : Json.Members) (text : String) : Bool :=
  if patternOf rt condition = "" then false
  else (rt.search (patternOf rt condition) (ignoreCase condition) text).getD false

/-- `_ai_keyword_matches`. -/
def aiKeywordMatches (condition : Json.Members) (text : String) : Bool :=
  if keywordOf rt condition = "" then false
  else rt.letters.occurs (ignoreCase condition) (keywordOf rt condition) text

/-- `_ai_rule_matches`. -/
def aiRuleMatches (rule : AiPolicyRule) (text : String) (classes : List SensitivityClass) : Bool :=
  match rule.inspectionType with
  | .regex => aiRegexMatches rt rule.conditionJson text
  | .keyword => aiKeywordMatches rt rule.conditionJson text
  | .pii => decide (.pii ∈ classes)
  | .secretPattern => decide (.secret ∈ classes)
  | .sensitiveContent =>
    decide (.pii ∈ classes) || decide (.secret ∈ classes) || decide (.securityMetadata ∈ classes)

structure AiPolicyMatch where
  policyId : ℤ
  policyName : String
  actionType : ActionType
  inspectionType : InspectionType
  deriving DecidableEq

structure AiPolicyBatchResult where
  decision : ActionType := .allow
  matchedPolicies : List AiPolicyMatch := []
  deriving DecidableEq

def AiPolicyRule.toMatch (rule : AiPolicyRule) : AiPolicyMatch :=
  ⟨rule.id, rule.name, rule.actionType, rule.inspectionType⟩

def moreSevere (best : ActionType) (m : AiPolicyMatch) : ActionType :=
  if best.severity ≤ m.actionType.severity then m.actionType else best

/-- `_resolve_ai_policy_decision`: the last of the most severe actions. -/
def resolveAiPolicyDecision (matched : List AiPolicyMatch) : ActionType :=
  matched.foldl moreSevere .allow

/-- The enabled rules of a stream for a target, by id. -/
def activeRules (rows : List AiPolicyRule) (aiStreamId : ℤ) (target : Target) :
    List AiPolicyRule :=
  (rows.filter fun r => decide (r.aiStreamId = aiStreamId) && r.enabled &&
    decide (r.target = target)).insertionSort (·.id ≤ ·.id)

/-- `evaluate_ai_policy_rules`. -/
def evaluateAiPolicyRules (rows : List AiPolicyRule) (aiStreamId : ℤ) (target : Target)
    (text : String) : AiPolicyBatchResult :=
  if strip text = "" then {}
  else
    let matched := ((activeRules rows aiStreamId target).filter fun r =>
      aiRuleMatches rt r text (rt.findingClasses text)).map AiPolicyRule.toMatch
    { decision := resolveAiPolicyDecision matched, matchedPolicies := matched }

/-! ### The text that is inspected -/

/-- A string content, trimmed, unless it is blank. -/
def nonBlank? : Option Json → Option String
  | some (.str c) => if strip c = "" then none else some (strip c)
  | _ => none

def messagePart : Json → Option String
  | .obj message => nonBlank? (Dict.get? "content" message)
  | _ => none

/-- `_message_text`. -/
def messageText (messages : List Json) : String := joinLines (messages.filterMap messagePart)

def promptText (request : Json.Members) : String :=
  match Dict.get? "prompt" request with
  | some (.str prompt) => prompt
  | _ => ""

/-- `extract_prompt_text`. -/
def extractPromptText (request : Json.Members) : String :=
  match Dict.get? "messages" request with
  | some (.arr messages) =>
    if messageText messages = "" then promptText request else messageText messages
  | _ => promptText request

def choicePart : Json → Option String
  | .obj choice =>
    match Dict.get? "message" choice with
    | some (.obj message) => nonBlank? (Dict.get? "content" message)
    | _ => none
  | _ => none

/-- `extract_response_text`. -/
def extractResponseText (response : Json.Members) : String :=
  match nonBlank? (Dict.get? "content" response) with
  | some text => text
  | none =>
    match Dict.get? "choices" response with
    | some (.arr choices) => joinLines (choices.filterMap choicePart)
    | _ => ""

structure AiInspectionResult where
  target : Target
  text : String
  policy : AiPolicyBatchResult
  deriving DecidableEq

def inspect (rows : List AiPolicyRule) (aiStreamId : ℤ) (target : Target) (text : String) :
    AiInspectionResult :=
  ⟨target, text, evaluateAiPolicyRules rt rows aiStreamId target text⟩

def inspectPrompt (rows : List AiPolicyRule) (aiStreamId : ℤ) (request : Json.Members) :
    AiInspectionResult :=
  inspect rt rows aiStreamId .prompt (extractPromptText request)

def inspectResponse (rows : List AiPolicyRule) (aiStreamId : ℤ) (response : Json.Members) :
    AiInspectionResult :=
  inspect rt rows aiStreamId .response (extractResponseText response)

/-! ### What the decision does to the payload -/

def redacted : String := "[REDACTED]"

/-- `str(partial_mask_value(text))`. -/
def maskText (text : String) : String := rt.text.str (Protection.partialMaskValue (.str text))

/-- `text[:idx] + new + text[idx + n:]`. -/
def splice (idx n : ℕ) (new text : String) : String :=
  String.ofList (text.toList.take idx ++ new.toList ++ text.toList.drop (idx + n))

/-- `text[idx:idx + n]`. -/
def segment (idx n : ℕ) (text : String) : String :=
  String.ofList ((text.toList.drop idx).take n)

/-- Where the keyword is first found; in the lower-cased text when case is ignored. -/
def findKeyword (ignore : Bool) (keyword text : String) : Option ℕ :=
  if ignore then findFrom (rt.letters.lowerChars keyword.toList) (rt.letters.lowerChars text.toList)
  else findFrom keyword.toList text.toList

/-- What takes the place of a hit. -/
def replacementFor (action : ActionType) (hit : String) : String :=
  if action = .mask then maskText rt hit else redacted

/-- One matched rule of the loop of `_transform_text`. -/
def transformStep (rows : List AiPolicyRule) (updated : String) (m : AiPolicyMatch) : String :=
  if m.actionType ≠ .mask ∧ m.actionType ≠ .redact then updated
  else
    let condition := ((rows.find? (·.id = m.policyId)).map (·.conditionJson)).getD []
    match m.inspectionType with
    | .regex =>
      if patternOf rt condition = "" then updated
      else (rt.sub (patternOf rt condition) (ignoreCase condition)
        (replacementFor rt m.actionType) updated).getD updated
    | .keyword =>
      let keyword := keywordOf rt condition
      if keyword = "" then updated
      else
        match findKeyword rt (ignoreCase condition) keyword updated with
        | none => updated
        | some idx => splice idx keyword.length
            (replacementFor rt m.actionType (segment idx keyword.length updated)) updated
    | _ => replacementFor rt m.actionType updated

/-- `_transform_text`. -/
def transformText (rows : List AiPolicyRule) (text : String) (action : ActionType)
    (matched : List AiPolicyMatch) : String :=
  if text = "" then text
  else
    let updated := matched.foldl (transformStep rt rows) text
    if updated = text ∧ (action = .mask ∨ action = .redact) then replacementFor rt action text
    else updated

/-- The message with another content, when its content is a string. -/
def setStringContent (new : String) : Json → Option Json
  | .obj message =>
    match Dict.get? "content" message with
    | some (.str _) => some (.obj (Dict.set "content" (.str new) message))
    | _ => none
  | _ => none

/-- The loop over `reversed(messages)`. -/
def setLastContent (new : String) : List Json → Option (List Json)
  | [] => none
  | m :: ms =>
    match setLastContent new ms with
    | some ms' => some (m :: ms')
    | none => (setStringContent new m).map (· :: ms)

/-- `_apply_prompt_text`. -/
def applyPromptText (request : Json.Members) (new : String) : Json.Members :=
  match Dict.get? "messages" request with
  | some (.arr messages) =>
    match setLastContent new messages with
    | some messages' => Dict.set "messages" (.arr messages') request
    | none => Dict.set "prompt" (.str new) request
  | _ => Dict.set "prompt" (.str new) request

/-- The choice with another message content, when its message is an object. -/
def setChoiceContent (new : String) : Json → Option Json
  | .obj choice =>
    match Dict.get? "message" choice with
    | some (.obj message) =>
      some (.obj (Dict.set "message" (.obj (Dict.set "content" (.str new) message)) choice))
    | _ => none
  | _ => none

def setFirstChoice (new : String) : List Json → Option (List Json)
  | [] => none
  | c :: cs =>
    match setChoiceContent new c with
    | some c' => some (c' :: cs)
    | none => (setFirstChoice new cs).map (c :: ·)

/-- `_apply_response_text`. -/
def applyResponseText (response : Json.Members) (new : String) : Json.Members :=
  match Dict.get? "content" response with
  | some (.str _) => Dict.set "content" (.str new) response
  | _ =>
    match Dict.get? "choices" response with
    | some (.arr choices) =>
      match setFirstChoice new choices with
      | some choices' => Dict.set "choices" (.arr choices') response
      | none => Dict.set "content" (.str new) response
    | _ => Dict.set "content" (.str new) response

structure AiPolicyEnforcementError where
  message : String
  stage : String
  action : ActionType
  policyId : Option ℤ
  policyName : String
  deriving DecidableEq

/-- `_top_match`. -/
def topMatch (policy : AiPolicyBatchResult) : Option AiPolicyMatch :=
  (policy.matchedPolicies.find? (·.actionType = policy.decision)).orElse fun _ =>
    policy.matchedPolicies.getLast?

/-- `_enforce_inspection`, after the early return of its callers. -/
def enforceInspection (rows : List AiPolicyRule) (inspection : AiInspectionResult)
    (payload : Json.Members) (apply : Json.Members → String → Json.Members) :
    Except AiPolicyEnforcementError Json.Members :=
  let policy := inspection.policy
  if inspection.text = "" ∧ policy.matchedPolicies = [] then .ok payload
  else if policy.decision.Blocking then
    .error {
      message := "AI policy " ++ policy.decision.text ++ " on " ++ inspection.target.text
      stage := inspection.target.text
      action := policy.decision
      policyId := (topMatch policy).map (·.policyId)
      policyName := ((topMatch policy).map (·.policyName)).getD "" }
  else if policy.decision = .mask ∨ policy.decision = .redact then
    .ok (apply payload
      (transformText rt rows inspection.text policy.decision policy.matchedPolicies))
  else .ok payload

def enforcePromptPolicy (rows : List AiPolicyRule) (aiStreamId : ℤ) (request : Json.Members) :
    Except AiPolicyEnforcementError Json.Members :=
  enforceInspection rt rows (inspectPrompt rt rows aiStreamId request) request applyPromptText

def enforceResponsePolicy (rows : List AiPolicyRule) (aiStreamId : ℤ)
    (response : Json.Members) : Except AiPolicyEnforcementError Json.Members :=
  enforceInspection rt rows (inspectResponse rt rows aiStreamId response) response
    applyResponseText

/-! ### A blocking rule that is met -/

theorem ActionType.blocking_iff {a : ActionType} : a.Blocking ↔ 3 ≤ a.severity := by
  cases a <;> simp [ActionType.Blocking, ActionType.severity]

theorem le_severity_moreSevere (best : ActionType) (m : AiPolicyMatch) :
    best.severity ≤ (moreSevere best m).severity ∧
      m.actionType.severity ≤ (moreSevere best m).severity := by
  unfold moreSevere
  split_ifs <;> omega

private theorem severity_le_foldl (matched : List AiPolicyMatch) (best : ActionType) :
    best.severity ≤ (matched.foldl moreSevere best).severity ∧
      ∀ m ∈ matched, m.actionType.severity ≤ (matched.foldl moreSevere best).severity := by
  induction matched generalizing best with
  | nil => simp
  | cons m ms ih =>
    obtain ⟨hnext, hrest⟩ := ih (moreSevere best m)
    obtain ⟨hbest, hm⟩ := le_severity_moreSevere best m
    rw [List.foldl_cons]
    refine ⟨by omega, ?_⟩
    intro m' hm'
    rcases List.mem_cons.mp hm' with rfl | hmem
    · omega
    · exact hrest m' hmem

/-- The decision is at least as severe as every rule that is met. -/
theorem severity_le_decision {matched : List AiPolicyMatch} {m : AiPolicyMatch}
    (h : m ∈ matched) : m.actionType.severity ≤ (resolveAiPolicyDecision matched).severity :=
  (severity_le_foldl matched .allow).2 m h

theorem mem_activeRules {rows : List AiPolicyRule} {aiStreamId : ℤ} {target : Target}
    {rule : AiPolicyRule} :
    rule ∈ activeRules rows aiStreamId target ↔ rule ∈ rows ∧ rule.aiStreamId = aiStreamId ∧
      rule.enabled = true ∧ rule.target = target := by
  simp [activeRules, List.mem_insertionSort, and_assoc]

/-- A keyword with no white space around it is found in no blank text. -/
theorem strip_ne_of_occurs {T : CaseTable} {ignore : Bool} {keyword text : String}
    (hk : Trimmed keyword.toList) (h : T.occurs ignore keyword text = true) :
    strip text ≠ "" := by
  intro hblank
  have hempty := T.occurs_of_repeats hk (T.repeats_of_blank hblank "") h
  rw [T.occurs_iff] at hempty
  cases ignore with
  | false =>
    simp only [Bool.false_eq_true, if_false] at hempty
    exact hk.ne_nil (List.infix_nil.mp (by simpa using hempty))
  | true =>
    have hlow := T.trimmed_lowerChars hk
    simp only [if_true] at hempty
    exact hlow.ne_nil (List.infix_nil.mp (by simpa [CaseTable.lowerChars, CaseTable.lowerFrom]
      using hempty))

/-- An enabled keyword rule that denies or blocks. -/
structure BlockingKeyword (rt : Runtime) (rows : List AiPolicyRule) (aiStreamId : ℤ)
    (target : Target) (rule : AiPolicyRule) : Prop where
  active : rule ∈ activeRules rows aiStreamId target
  keyword : rule.inspectionType = .keyword
  blocking : rule.actionType.Blocking
  trimmed : Trimmed (keywordOf rt rule.conditionJson).toList

theorem BlockingKeyword.keyword_ne {rows : List AiPolicyRule} {aiStreamId : ℤ}
    {target : Target} {rule : AiPolicyRule}
    (h : BlockingKeyword rt rows aiStreamId target rule) :
    keywordOf rt rule.conditionJson ≠ "" := by
  intro hempty
  apply h.trimmed.ne_nil
  rw [hempty]
  rfl

theorem BlockingKeyword.matches_iff {rows : List AiPolicyRule} {aiStreamId : ℤ}
    {target : Target} {rule : AiPolicyRule}
    (h : BlockingKeyword rt rows aiStreamId target rule) (text : String) :
    aiKeywordMatches rt rule.conditionJson text =
      rt.letters.occurs (ignoreCase rule.conditionJson) (keywordOf rt rule.conditionJson) text := by
  rw [aiKeywordMatches, if_neg h.keyword_ne]

/-- A payload whose inspected text has the keyword of a blocking rule does not pass. -/
theorem enforceInspection_blocked {rows : List AiPolicyRule} {aiStreamId : ℤ} {target : Target}
    {rule : AiPolicyRule} {text : String}
    (h : BlockingKeyword rt rows aiStreamId target rule)
    (hocc : aiKeywordMatches rt rule.conditionJson text = true) (payload : Json.Members)
    (apply : Json.Members → String → Json.Members) :
    ∃ e, enforceInspection rt rows (inspect rt rows aiStreamId target text) payload apply =
      .error e := by
  have hfound := hocc
  rw [h.matches_iff] at hfound
  have hblank := strip_ne_of_occurs h.trimmed hfound
  have hmet : rule.toMatch ∈ (evaluateAiPolicyRules rt rows aiStreamId target text).matchedPolicies := by
    rw [evaluateAiPolicyRules, if_neg hblank]
    refine List.mem_map_of_mem (List.mem_filter.mpr ⟨h.active, ?_⟩)
    rw [aiRuleMatches, h.keyword]
    exact hocc
  have hsevere : (evaluateAiPolicyRules rt rows aiStreamId target text).decision.Blocking := by
    have hrule := ActionType.blocking_iff.mp h.blocking
    have hle := severity_le_decision hmet
    rw [ActionType.blocking_iff]
    have hdecision : (evaluateAiPolicyRules rt rows aiStreamId target text).decision =
        resolveAiPolicyDecision
          (evaluateAiPolicyRules rt rows aiStreamId target text).matchedPolicies := by
      rw [evaluateAiPolicyRules, if_neg hblank]
    rw [hdecision]
    exact hrule.trans hle
  have hsome : (evaluateAiPolicyRules rt rows aiStreamId target text).matchedPolicies ≠ [] :=
    List.ne_nil_of_mem hmet
  simp only [enforceInspection, inspect, hsome, hsevere, and_false, if_false, if_true,
    Except.error.injEq, exists_eq']

/-- A payload whose inspected text meets no rule passes as it is. -/
theorem enforceInspection_unmet {rows : List AiPolicyRule} {aiStreamId : ℤ} {target : Target}
    {text : String} (h : ∀ r ∈ activeRules rows aiStreamId target,
      aiRuleMatches rt r text (rt.findingClasses text) = false) (payload : Json.Members)
    (apply : Json.Members → String → Json.Members) :
    enforceInspection rt rows (inspect rt rows aiStreamId target text) payload apply =
      .ok payload := by
  have hresult : evaluateAiPolicyRules rt rows aiStreamId target text = {} := by
    unfold evaluateAiPolicyRules
    split_ifs with hblank
    · rfl
    · have hnone : (activeRules rows aiStreamId target).filter (fun r =>
          aiRuleMatches rt r text (rt.findingClasses text)) = [] := by
        rw [List.filter_eq_nil_iff]
        intro r hr
        simp [h r hr]
      simp [hnone, resolveAiPolicyDecision]
  simp [enforceInspection, inspect, hresult, ActionType.Blocking]

end AiPolicy
