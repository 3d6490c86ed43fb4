import DataRelay.AiPolicy.Redaction

/-! What redaction leaves of a request and of a response: right where one content holds all the
text, and not where several do. -/
namespace AiPolicy
open Runner PyText Splicing

variable {rt : Runtime} {rows rules : List AiPolicyRule}

/-! ### The decision -/

variable {aiStreamId : ℤ} {target : Target}

theorem mem_redactRules {rule : AiPolicyRule} :
    rule ∈ redactRules rows aiStreamId target ↔ rule ∈ activeRules rows aiStreamId target ∧
      rule.inspectionType = .keyword ∧ rule.actionType = .redact := by
  simp [redactRules]

theorem Redactors.sound {text : String} (h : Redactors rt rows aiStreamId target text) :
    Sound rt rows (redactRules rows aiStreamId target) where
  ids := h.ids
  row rule hrule := (mem_activeRules.mp (mem_redactRules.mp hrule).1).1
  kind rule hrule := (mem_redactRules.mp hrule).2.1
  action rule hrule := (mem_redactRules.mp hrule).2.2
  keyword_ne rule hrule hempty := h.named rule hrule (by rw [hempty]; rfl)
  apart := h.apart

theorem resolve_redact {matched : List AiPolicyMatch} (hne : matched ≠ [])
    (h : ∀ m ∈ matched, m.actionType = .redact) : resolveAiPolicyDecision matched = .redact := by
  have hkeep : ∀ ms : List AiPolicyMatch, (∀ m ∈ ms, m.actionType = .redact) →
      ms.foldl moreSevere .redact = .redact := by
    intro ms
    induction ms with
    | nil => intro _; rfl
    | cons m ms ih =>
      intro hms
      have hm := hms m List.mem_cons_self
      rw [List.foldl_cons, moreSevere, hm, if_pos le_rfl]
      exact ih fun m' hm' => hms m' (List.mem_cons_of_mem m hm')
  cases matched with
  | nil => exact absurd rfl hne
  | cons m ms =>
    have hm := h m List.mem_cons_self
    rw [resolveAiPolicyDecision, List.foldl_cons, moreSevere, hm, if_pos (by decide)]
    exact hkeep ms fun m' hm' => h m' (List.mem_cons_of_mem m hm')

/-- The rules that are met, when only redact rules can be. -/
theorem Redactors.mem_met {text : String} (h : Redactors rt rows aiStreamId target text)
    {rule : AiPolicyRule} :
    rule ∈ (activeRules rows aiStreamId target).filter (fun r =>
        aiRuleMatches rt r text (rt.findingClasses text)) ↔
      rule ∈ redactRules rows aiStreamId target ∧
        aiKeywordMatches rt rule.conditionJson text = true := by
  rw [List.mem_filter]
  constructor
  · rintro ⟨hactive, hmet⟩
    by_cases hrule : rule ∈ redactRules rows aiStreamId target
    · refine ⟨hrule, ?_⟩
      rwa [aiRuleMatches, (mem_redactRules.mp hrule).2.1] at hmet
    · rw [h.others rule hactive hrule] at hmet
      cases hmet
  · rintro ⟨hrule, hmet⟩
    refine ⟨(mem_redactRules.mp hrule).1, ?_⟩
    rwa [aiRuleMatches, (mem_redactRules.mp hrule).2.1]

theorem Redactors.unmet {text : String} (h : Redactors rt rows aiStreamId target text)
    (hnone : ∀ rule ∈ redactRules rows aiStreamId target,
      aiKeywordMatches rt rule.conditionJson text = false) :
    ∀ r ∈ activeRules rows aiStreamId target,
      aiRuleMatches rt r text (rt.findingClasses text) = false := by
  intro r hr
  rw [Bool.eq_false_iff]
  intro hmet
  obtain ⟨hrule, hocc⟩ := h.mem_met.mp (List.mem_filter.mpr ⟨hr, hmet⟩)
  rw [hnone r hrule] at hocc
  cases hocc

/-- Rules that are met write the transformed text. -/
theorem Redactors.enforce_met {text : String} (h : Redactors rt rows aiStreamId target text)
    (hblank : strip text ≠ "") (hmet : ∃ rule ∈ redactRules rows aiStreamId target,
      aiKeywordMatches rt rule.conditionJson text = true) (payload : Json.Members)
    (apply : Json.Members → String → Json.Members) :
    ∃ matched : List AiPolicyRule, matched ≠ [] ∧
      (∀ rule, rule ∈ matched ↔ rule ∈ redactRules rows aiStreamId target ∧
        aiKeywordMatches rt rule.conditionJson text = true) ∧
      enforceInspection rt rows (inspect rt rows aiStreamId target text) payload apply =
        .ok (apply payload
          (transformText rt rows text .redact (matched.map AiPolicyRule.toMatch))) := by
  have hmem := fun rule => @Redactors.mem_met _ _ _ _ _ h rule
  generalize hmatched : (activeRules rows aiStreamId target).filter (fun r =>
    aiRuleMatches rt r text (rt.findingClasses text)) = matched at hmem
  obtain ⟨rule, hrule, hocc⟩ := hmet
  have hsome : matched ≠ [] := List.ne_nil_of_mem ((hmem rule).mpr ⟨hrule, hocc⟩)
  have hdecision : resolveAiPolicyDecision (matched.map AiPolicyRule.toMatch) = .redact := by
    apply resolve_redact (by simpa using hsome)
    intro m hm
    obtain ⟨r, hr, rfl⟩ := List.mem_map.mp hm
    exact (mem_redactRules.mp ((hmem r).mp hr).1).2.2
  have hresult : evaluateAiPolicyRules rt rows aiStreamId target text =
      ⟨.redact, matched.map AiPolicyRule.toMatch⟩ := by
    rw [evaluateAiPolicyRules, if_neg hblank, hmatched]
    show AiPolicyBatchResult.mk _ _ = _
    rw [hdecision]
  refine ⟨matched, hsome, hmem, ?_⟩
  simp [enforceInspection, inspect, hresult, hsome, ActionType.Blocking]

/-- A payload whose inspected text is one content gets that content back redacted. -/
theorem enforceInspection_redacts {c : String}
    (h : Redactors rt rows aiStreamId target (strip c)) (hc : strip c ≠ "")
    (hfound : ∀ rule ∈ redactRules rows aiStreamId target,
      FoundOnce rt (redactRules rows aiStreamId target) rule (strip c).toList)
    (hmet : ∃ rule ∈ redactRules rows aiStreamId target,
      aiKeywordMatches rt rule.conditionJson (strip c) = true) (payload : Json.Members)
    (apply : Json.Members → String → Json.Members) :
    ∃ c', enforceInspection rt rows (inspect rt rows aiStreamId target (strip c)) payload apply =
        .ok (apply payload c') ∧ RedactedText rt (redactRules rows aiStreamId target) c c' := by
  obtain ⟨matched, hsome, hmem, hout⟩ := h.enforce_met (by rwa [strip_strip]) hmet payload apply
  exact ⟨_, hout, transformText_redacted h.sound hfound (fun r hr => (hmem r).mp hr)
    (fun r hr hr' => (hmem r).mpr ⟨hr, hr'⟩) hsome hc⟩

/-! ### Contents of messages and choices -/

def stringOf : Option Json → Option String
  | some (.str c) => some c
  | _ => none

def messageContent : Json → Option String
  | .obj message => stringOf (Dict.get? "content" message)
  | _ => none

def choiceContent : Json → Option String
  | .obj choice =>
    match Dict.get? "message" choice with
    | some (.obj message) => stringOf (Dict.get? "content" message)
    | _ => none
  | _ => none

/-- A string, trimmed, unless it is blank. -/
def trimmedPart (c : String) : Option String := if strip c = "" then none else some (strip c)

theorem nonBlank?_eq (v : Option Json) : nonBlank? v = (stringOf v).bind trimmedPart := by
  cases v with
  | none => rfl
  | some j => cases j <;> rfl

theorem eq_of_stringOf {v : Option Json} {c : String} (h : stringOf v = some c) :
    v = some (.str c) := by
  unfold stringOf at h
  split at h
  · obtain rfl := Option.some.inj h
    rfl
  · cases h

theorem messagePart_eq (v : Json) : messagePart v = (messageContent v).bind trimmedPart := by
  cases v with
  | obj message => exact nonBlank?_eq _
  | _ => rfl

theorem choicePart_eq (v : Json) : choicePart v = (choiceContent v).bind trimmedPart := by
  cases v with
  | obj choice =>
    rw [choicePart, choiceContent]
    cases Dict.get? "message" choice with
    | none => rfl
    | some message =>
      cases message with
      | obj members => exact nonBlank?_eq _
      | _ => rfl
  | _ => rfl

theorem setStringContent_self {v : Json} {c : String} (h : messageContent v = some c) :
    setStringContent c v = some v := by
  cases v with
  | obj message =>
    have hget := eq_of_stringOf h
    simp [setStringContent, hget, Dict.set_self hget]
  | _ => cases h

theorem exists_setStringContent {v : Json} {c : String} (h : messageContent v = some c)
    (new : String) : ∃ v', setStringContent new v = some v' := by
  cases v with
  | obj message =>
    have hget := eq_of_stringOf h
    exact ⟨_, by simp [setStringContent, hget]; rfl⟩
  | _ => cases h

theorem setStringContent_eq_none {v : Json} (h : messageContent v = none) (new : String) :
    setStringContent new v = none := by
  cases v with
  | obj message =>
    rw [setStringContent]
    cases hget : Dict.get? "content" message with
    | none => rfl
    | some j =>
      cases j with
      | str c => simp [messageContent, hget, stringOf] at h
      | _ => rfl
  | _ => rfl

theorem exists_choiceMessage {v : Json} {c : String} (h : choiceContent v = some c) :
    ∃ choice message, v = .obj choice ∧ Dict.get? "message" choice = some (.obj message) ∧
      Dict.get? "content" message = some (.str c) := by
  cases v with
  | obj choice =>
    rw [choiceContent] at h
    split at h
    · next message hget => exact ⟨choice, message, rfl, hget, eq_of_stringOf h⟩
    · cases h
  | _ => cases h

theorem setChoiceContent_self {v : Json} {c : String} (h : choiceContent v = some c) :
    setChoiceContent c v = some v := by
  obtain ⟨choice, message, rfl, hmessage, hcontent⟩ := exists_choiceMessage h
  simp [setChoiceContent, hmessage, Dict.set_self hcontent, Dict.set_self hmessage]

theorem exists_setChoiceContent {v : Json} {c : String} (h : choiceContent v = some c)
    (new : String) : ∃ v', setChoiceContent new v = some v' := by
  obtain ⟨choice, message, rfl, hmessage, -⟩ := exists_choiceMessage h
  exact ⟨_, by simp [setChoiceContent, hmessage]; rfl⟩

/-- No keyword occurs in a blank content. -/
theorem not_matches_blank {rule : AiPolicyRule}
    (hnamed : strip (keywordOf rt rule.conditionJson) ≠ "") {c : String} (hc : strip c = "") :
    aiKeywordMatches rt rule.conditionJson c = false := by
  rw [Bool.eq_false_iff]
  intro hocc
  unfold aiKeywordMatches at hocc
  split_ifs at hocc with hempty
  have htrim : Trimmed (strip (keywordOf rt rule.conditionJson)).toList := by
    have hne : stripChars (keywordOf rt rule.conditionJson).toList ≠ [] := by
      intro hnil
      exact hnamed (by rw [strip, hnil, String.ofList_nil])
    simpa [strip] using trimmed_stripChars hne
  obtain ⟨hpart, hlow⟩ := rt.letters.repeats_self (keywordOf rt rule.conditionJson)
  have hstripped : rt.letters.occurs (ignoreCase rule.conditionJson)
      (strip (keywordOf rt rule.conditionJson)) c = true := by
    rw [CaseTable.occurs_iff] at hocc ⊢
    simp only [strip, String.toList_ofList]
    split_ifs at hocc ⊢
    · exact hlow.trans hocc
    · exact hpart.trans hocc
  exact strip_ne_of_occurs htrim hstripped hc

/-- Where only redact rules can be met, the payload comes back as it is or with a text applied. -/
theorem Redactors.enforce_ok {text : String} (h : Redactors rt rows aiStreamId target text)
    (payload : Json.Members) (apply : Json.Members → String → Json.Members) :
    ∃ out, enforceInspection rt rows (inspect rt rows aiStreamId target text) payload apply =
        .ok out ∧ (out = payload ∨ ∃ new, out = apply payload new) := by
  by_cases hmet : ∃ rule ∈ redactRules rows aiStreamId target,
      aiKeywordMatches rt rule.conditionJson text = true
  · have hblank : strip text ≠ "" := by
      intro hblank
      obtain ⟨rule, hrule, hocc⟩ := hmet
      rw [not_matches_blank (h.named rule hrule) hblank] at hocc
      cases hocc
    obtain ⟨matched, -, -, hout⟩ := h.enforce_met hblank hmet payload apply
    exact ⟨_, hout, .inr ⟨_, rfl⟩⟩
  · push Not at hmet
    have hunmet := h.unmet fun rule hrule => Bool.eq_false_iff.mpr (hmet rule hrule)
    exact ⟨payload, enforceInspection_unmet rt hunmet payload apply, .inl rfl⟩

/-! ### Where the text is and where it goes -/

/-- The one item whose content is not blank. -/
structure OnlyText (content : Json → Option String) (pre : List Json) (v : Json)
    (post : List Json) (c : String) : Prop where
  here : content v = some c
  text : strip c ≠ ""
  elsewhere : ∀ u ∈ pre ++ post, ∀ c', content u = some c' → strip c' = ""

theorem OnlyText.joinLines_eq {content : Json → Option String} {pre post : List Json} {v : Json}
    {c : String} (h : OnlyText content pre v post c) :
    joinLines ((pre ++ v :: post).filterMap fun u => (content u).bind trimmedPart) =
      strip c := by
  have hnone : ∀ us : List Json, us ⊆ pre ++ post →
      us.filterMap (fun u => (content u).bind trimmedPart) = [] := by
    intro us hus
    rw [List.filterMap_eq_nil_iff]
    intro u hu
    cases hcu : content u with
    | none => rfl
    | some c' => simp [trimmedPart, h.elsewhere u (hus hu) c' hcu]
  have hv : (content v).bind trimmedPart = some (strip c) := by
    simp [h.here, trimmedPart, h.text]
  rw [List.filterMap_append, List.filterMap_cons, hv, hnone pre (by simp), hnone post (by simp)]
  simp [joinLines, List.intercalate]

/-- An item that stays as it is counts as redacted if it has no keyword. -/
theorem slotRedacted_same {content : Json → Option String} {put : String → Json → Option Json}
    (hput : ∀ u c, content u = some c → put c u = some u) {v : Json}
    (hclean : ∀ c, content v = some c → ∀ rule ∈ rules,
      aiKeywordMatches rt rule.conditionJson c = false) :
    SlotRedacted rt rules content put v v := by
  unfold SlotRedacted
  cases hc : content v with
  | none => rfl
  | some c => exact ⟨c, hput v c hc, hclean c hc, c.toList, .refl _ _ _, rfl⟩

theorem slotsRedacted_same {content : Json → Option String}
    {put : String → Json → Option Json} (hput : ∀ u c, content u = some c → put c u = some u)
    {us : List Json} (hclean : ∀ u ∈ us, ∀ c, content u = some c → ∀ rule ∈ rules,
      aiKeywordMatches rt rule.conditionJson c = false) :
    List.Forall₂ (SlotRedacted rt rules content put) us us := by
  rw [List.forall₂_same]
  intro u hu
  exact slotRedacted_same hput (hclean u hu)

/-- One item changed for its redacted content, the others without a keyword. -/
theorem slotsRedacted_one {content : Json → Option String}
    {put : String → Json → Option Json} (hput : ∀ u c, content u = some c → put c u = some u)
    (hnamed : ∀ rule ∈ rules, strip (keywordOf rt rule.conditionJson) ≠ "")
    {pre post : List Json} {v v' : Json} {c c' : String} (h : OnlyText content pre v post c)
    (hv' : put c' v = some v') (hredacted : RedactedText rt rules c c') :
    List.Forall₂ (SlotRedacted rt rules content put) (pre ++ v :: post) (pre ++ v' :: post) := by
  have hblank : ∀ us : List Json, us ⊆ pre ++ post →
      List.Forall₂ (SlotRedacted rt rules content put) us us := by
    intro us hus
    apply slotsRedacted_same hput
    intro u hu c'' hc'' rule hrule
    exact not_matches_blank (hnamed rule hrule) (h.elsewhere u (hus hu) c'' hc'')
  refine List.rel_append (hblank pre (by simp)) (.cons ?_ (hblank post (by simp)))
  unfold SlotRedacted
  rw [h.here]
  exact ⟨c', hv', hredacted⟩

theorem setLastContent_eq_none {us : List Json} (h : ∀ u ∈ us, messageContent u = none)
    (new : String) : setLastContent new us = none := by
  induction us with
  | nil => rfl
  | cons u us ih =>
    have hrest := ih fun w hw => h w (List.mem_cons_of_mem u hw)
    simp [setLastContent, hrest, setStringContent_eq_none (h u List.mem_cons_self) new]

theorem setLastContent_append {pre post : List Json} {v v' : Json} {new : String}
    (hpost : ∀ u ∈ post, messageContent u = none) (hv : setStringContent new v = some v') :
    setLastContent new (pre ++ v :: post) = some (pre ++ v' :: post) := by
  induction pre with
  | nil => simp [setLastContent, setLastContent_eq_none hpost new, hv]
  | cons u pre ih => simp [setLastContent, ih]

/-- The choice has no message to write to. -/
def NoMessage (u : Json) : Prop := ∀ message, memberOf "message" (some u) ≠ some (.obj message)

theorem setChoiceContent_eq_none {u : Json} (h : NoMessage u) (new : String) :
    setChoiceContent new u = none := by
  cases u with
  | obj choice =>
    rw [setChoiceContent]
    cases hget : Dict.get? "message" choice with
    | none => rfl
    | some j =>
      cases j with
      | obj message => exact absurd hget (h message)
      | _ => rfl
  | _ => rfl

theorem setFirstChoice_append {pre post : List Json} {v v' : Json} {new : String}
    (hpre : ∀ u ∈ pre, NoMessage u) (hv : setChoiceContent new v = some v') :
    setFirstChoice new (pre ++ v :: post) = some (pre ++ v' :: post) := by
  induction pre with
  | nil => simp [setFirstChoice, hv]
  | cons u pre ih =>
    have hrest := ih fun w hw => hpre w (List.mem_cons_of_mem u hw)
    simp [setFirstChoice, setChoiceContent_eq_none (hpre u List.mem_cons_self) new, hrest]

theorem get?_of_listOf {key : String} {members : Json.Members} {v : Json} {pre post : List Json}
    (h : listOf key members = pre ++ v :: post) :
    Dict.get? key members = some (.arr (pre ++ v :: post)) := by
  unfold listOf at h
  split at h
  · next items hitems => rw [hitems, h]
  · simp at h

/-! ### Redaction of a request and of a response -/

/-- No keyword occurs in the inspected text or in a content of its own. -/
def Keywordless (rt : Runtime) (rules : List AiPolicyRule) (content : Json → Option String) (text : String)
    (items : List Json) : Prop :=
  ∀ rule ∈ rules, aiKeywordMatches rt rule.conditionJson text = false ∧
    ∀ v ∈ items, ∀ c, content v = some c → aiKeywordMatches rt rule.conditionJson c = false

/-- No keyword occurs; or no message has a string content; or the last string content is the only
one with text, a keyword is met in it, and each rule finds its keyword there once. -/
def PromptFits (rt : Runtime) (rules : List AiPolicyRule) (request : Json.Members) : Prop :=
  Keywordless rt rules messageContent (extractPromptText request)
      (listOf "messages" request) ∨
    (∀ v ∈ listOf "messages" request, messageContent v = none) ∨
    ∃ pre v post c, listOf "messages" request = pre ++ v :: post ∧
      OnlyText messageContent pre v post c ∧ (∀ u ∈ post, messageContent u = none) ∧
      (∃ rule ∈ rules, aiKeywordMatches rt rule.conditionJson (strip c) = true) ∧
      ∀ rule ∈ rules, FoundOnce rt rules rule (strip c).toList

/-- No keyword occurs; or a string content stands at the top, and no keyword occurs in a choice; or
none stands there, the first choice with a message is the only one with text, a keyword is met in
it, and each rule finds its keyword there once. -/
def ResponseFits (rt : Runtime) (rules : List AiPolicyRule) (response : Json.Members) : Prop :=
  Keywordless rt rules choiceContent (extractResponseText response)
      (listOf "choices" response) ∨
    ((∃ t, Dict.get? "content" response = some (.str t)) ∧
      ∀ v ∈ listOf "choices" response, ∀ c, choiceContent v = some c →
        ∀ rule ∈ rules, aiKeywordMatches rt rule.conditionJson c = false) ∨
    ∃ pre v post c, listOf "choices" response = pre ++ v :: post ∧
      OnlyText choiceContent pre v post c ∧ (∀ u ∈ pre, NoMessage u) ∧
      (∀ t, Dict.get? "content" response ≠ some (.str t)) ∧
      (∃ rule ∈ rules, aiKeywordMatches rt rule.conditionJson (strip c) = true) ∧
      ∀ rule ∈ rules, FoundOnce rt rules rule (strip c).toList

/-- Every message of the request is redacted by itself. -/
def PromptRedacted (rt : Runtime) (rows : List AiPolicyRule) (aiStreamId : ℤ)
    (request : Json.Members) : Prop :=
  ∃ out, enforcePromptPolicy rt rows aiStreamId request = .ok out ∧
    List.Forall₂ (SlotRedacted rt (redactRules rows aiStreamId .prompt) messageContent
      setStringContent) (listOf "messages" request) (listOf "messages" out)

/-- Every choice of the response is redacted by itself. -/
def ResponseRedacted (rt : Runtime) (rows : List AiPolicyRule) (aiStreamId : ℤ)
    (response : Json.Members) : Prop :=
  ∃ out, enforceResponsePolicy rt rows aiStreamId response = .ok out ∧
    List.Forall₂ (SlotRedacted rt (redactRules rows aiStreamId .response) choiceContent
      setChoiceContent) (listOf "choices" response) (listOf "choices" out)

theorem extractPromptText_onlyText {request : Json.Members} {pre post : List Json} {v : Json}
    {c : String} (hlist : listOf "messages" request = pre ++ v :: post)
    (h : OnlyText messageContent pre v post c) : extractPromptText request = strip c := by
  have hjoin : messageText (pre ++ v :: post) = strip c := by
    rw [messageText, funext messagePart_eq]
    exact h.joinLines_eq
  simp [extractPromptText, get?_of_listOf hlist, hjoin, h.text]

theorem extractResponseText_onlyText {response : Json.Members} {pre post : List Json} {v : Json}
    {c : String} (hlist : listOf "choices" response = pre ++ v :: post)
    (htop : ∀ t, Dict.get? "content" response ≠ some (.str t))
    (h : OnlyText choiceContent pre v post c) : extractResponseText response = strip c := by
  have hjoin : joinLines ((pre ++ v :: post).filterMap choicePart) = strip c := by
    rw [funext choicePart_eq]
    exact h.joinLines_eq
  have hnone : nonBlank? (Dict.get? "content" response) = none := by
    rw [nonBlank?_eq]
    cases hs : stringOf (Dict.get? "content" response) with
    | none => rfl
    | some t => exact absurd (eq_of_stringOf hs) (htop t)
  rw [extractResponseText, hnone]
  simp only [get?_of_listOf hlist, hjoin]

theorem promptRedacted_of_unmet {request : Json.Members}
    (h : Redactors rt rows aiStreamId .prompt (extractPromptText request))
    (hnone : Keywordless rt (redactRules rows aiStreamId .prompt) messageContent
      (extractPromptText request) (listOf "messages" request)) :
    PromptRedacted rt rows aiStreamId request := by
  have hunmet := h.unmet fun rule hrule => (hnone rule hrule).1
  refine ⟨request, enforceInspection_unmet rt hunmet request applyPromptText, ?_⟩
  apply slotsRedacted_same (fun u c => setStringContent_self)
  intro u hu c hc rule hrule
  exact (hnone rule hrule).2 u hu c hc

theorem responseRedacted_of_unmet {response : Json.Members}
    (h : Redactors rt rows aiStreamId .response (extractResponseText response))
    (hnone : Keywordless rt (redactRules rows aiStreamId .response) choiceContent
      (extractResponseText response) (listOf "choices" response)) :
    ResponseRedacted rt rows aiStreamId response := by
  have hunmet := h.unmet fun rule hrule => (hnone rule hrule).1
  refine ⟨response, enforceInspection_unmet rt hunmet response applyResponseText, ?_⟩
  apply slotsRedacted_same (fun u c => setChoiceContent_self)
  intro u hu c hc rule hrule
  exact (hnone rule hrule).2 u hu c hc

/-- Without a string content in a message the text goes to the prompt, and the messages stay. -/
theorem promptRedacted_of_noContent {request : Json.Members}
    (h : Redactors rt rows aiStreamId .prompt (extractPromptText request))
    (hnone : ∀ v ∈ listOf "messages" request, messageContent v = none) :
    PromptRedacted rt rows aiStreamId request := by
  have hsame : List.Forall₂ (SlotRedacted rt (redactRules rows aiStreamId .prompt) messageContent
      setStringContent) (listOf "messages" request) (listOf "messages" request) := by
    refine slotsRedacted_same (fun u c => setStringContent_self) fun u hu c hc => ?_
    rw [hnone u hu] at hc
    cases hc
  obtain ⟨out, hout, rfl | ⟨new, rfl⟩⟩ := h.enforce_ok request applyPromptText
  · exact ⟨_, hout, hsame⟩
  · refine ⟨_, hout, ?_⟩
    have happly : applyPromptText request new = Dict.set "prompt" (.str new) request := by
      unfold applyPromptText
      split
      · next messages hget =>
        have hlist : listOf "messages" request = messages := by simp [listOf, hget]
        rw [setLastContent_eq_none (hlist ▸ hnone)]
      · rfl
    have hlist : listOf "messages" (applyPromptText request new) = listOf "messages" request := by
      simp [happly, listOf]
    rw [hlist]
    exact hsame

/-- With a string content at the top the text goes there, and the choices stay. -/
theorem responseRedacted_of_content {response : Json.Members}
    (h : Redactors rt rows aiStreamId .response (extractResponseText response)) {t : String}
    (htop : Dict.get? "content" response = some (.str t))
    (hnone : ∀ v ∈ listOf "choices" response, ∀ c, choiceContent v = some c →
      ∀ rule ∈ redactRules rows aiStreamId .response,
        aiKeywordMatches rt rule.conditionJson c = false) :
    ResponseRedacted rt rows aiStreamId response := by
  have hsame : List.Forall₂ (SlotRedacted rt (redactRules rows aiStreamId .response) choiceContent
      setChoiceContent) (listOf "choices" response) (listOf "choices" response) :=
    slotsRedacted_same (fun u c => setChoiceContent_self) hnone
  obtain ⟨out, hout, rfl | ⟨new, rfl⟩⟩ := h.enforce_ok response applyResponseText
  · exact ⟨_, hout, hsame⟩
  · refine ⟨_, hout, ?_⟩
    have hchoices : listOf "choices" (applyResponseText response new) =
        listOf "choices" response := by
      simp [applyResponseText, htop, listOf]
    rw [hchoices]
    exact hsame

theorem promptRedacted_of_onlyText {request : Json.Members} {pre post : List Json} {v : Json}
    {c : String} (h : Redactors rt rows aiStreamId .prompt (extractPromptText request))
    (hlist : listOf "messages" request = pre ++ v :: post)
    (honly : OnlyText messageContent pre v post c)
    (hpost : ∀ u ∈ post, messageContent u = none)
    (hmet : ∃ rule ∈ redactRules rows aiStreamId .prompt,
      aiKeywordMatches rt rule.conditionJson (strip c) = true)
    (hfound : ∀ rule ∈ redactRules rows aiStreamId .prompt,
      FoundOnce rt (redactRules rows aiStreamId .prompt) rule (strip c).toList) :
    PromptRedacted rt rows aiStreamId request := by
  have htext := extractPromptText_onlyText hlist honly
  have hred := h
  rw [htext] at hred
  obtain ⟨c', hout, hredacted⟩ :=
    enforceInspection_redacts hred honly.text hfound hmet request applyPromptText
  obtain ⟨v', hv'⟩ := exists_setStringContent honly.here c'
  have happly : applyPromptText request c' =
      Dict.set "messages" (.arr (pre ++ v' :: post)) request := by
    simp [applyPromptText, get?_of_listOf hlist, setLastContent_append hpost hv']
  refine ⟨applyPromptText request c', ?_, ?_⟩
  · rw [enforcePromptPolicy, inspectPrompt, htext]
    exact hout
  · have hafter : listOf "messages" (applyPromptText request c') = pre ++ v' :: post := by
      simp [happly, listOf]
    rw [hlist, hafter]
    exact slotsRedacted_one (fun u c => setStringContent_self) h.named honly hv' hredacted

theorem responseRedacted_of_onlyText {response : Json.Members} {pre post : List Json} {v : Json}
    {c : String} (h : Redactors rt rows aiStreamId .response (extractResponseText response))
    (hlist : listOf "choices" response = pre ++ v :: post)
    (honly : OnlyText choiceContent pre v post c) (hpre : ∀ u ∈ pre, NoMessage u)
    (htop : ∀ t, Dict.get? "content" response ≠ some (.str t))
    (hmet : ∃ rule ∈ redactRules rows aiStreamId .response,
      aiKeywordMatches rt rule.conditionJson (strip c) = true)
    (hfound : ∀ rule ∈ redactRules rows aiStreamId .response,
      FoundOnce rt (redactRules rows aiStreamId .response) rule (strip c).toList) :
    ResponseRedacted rt rows aiStreamId response := by
  have htext := extractResponseText_onlyText hlist htop honly
  have hred := h
  rw [htext] at hred
  obtain ⟨c', hout, hredacted⟩ :=
    enforceInspection_redacts hred honly.text hfound hmet response applyResponseText
  obtain ⟨v', hv'⟩ := exists_setChoiceContent honly.here c'
  have happly : applyResponseText response c' =
      Dict.set "choices" (.arr (pre ++ v' :: post)) response := by
    unfold applyResponseText
    split
    · next t hget => exact absurd hget (htop t)
    · simp [get?_of_listOf hlist, setFirstChoice_append hpre hv']
  refine ⟨applyResponseText response c', ?_, ?_⟩
  · rw [enforceResponsePolicy, inspectResponse, htext]
    exact hout
  · have hafter : listOf "choices" (applyResponseText response c') = pre ++ v' :: post := by
      simp [happly, listOf]
    rw [hlist, hafter]
    exact slotsRedacted_one (fun u c => setChoiceContent_self) h.named honly hv' hredacted

/-- The rule that redacts one word as it is written. -/
def redactWord (target : Target) (word : String) : AiPolicyRule :=
  { blockWord target word with
    name := "redact"
    conditionJson := [("keyword", .str word), ("ignore_case", .bool false)]
    actionType := .redact }

def userMessage (content : String) : Json := .obj [("role", .str "user"), ("content", .str content)]

/-- A request of two messages; the word is in the first. -/
def twoMessages : Json.Members :=
  [("messages", .arr [userMessage "mission at noon", userMessage "thanks"])]

/-- The mark shares no letter with the word. -/
theorem mission_apart (target : Target) :
    ∀ rule ∈ redactRules [redactWord target "mission"] 1 target,
      ∀ c ∈ plainRuntime.letters.lowerChars redacted.toList,
        c ∉ plainRuntime.letters.lowerChars (keywordOf plainRuntime rule.conditionJson).toList := by
  have hall : (redactRules [redactWord target "mission"] 1 target).all (fun rule =>
      (plainRuntime.letters.lowerChars redacted.toList).all fun c => decide
        (c ∉ plainRuntime.letters.lowerChars
          (keywordOf plainRuntime rule.conditionJson).toList)) = true := by
    cases target <;> rfl
  simpa only [List.all_eq_true, decide_eq_true_eq] using hall

theorem twoMessages_redactors :
    Redactors plainRuntime [redactWord .prompt "mission"] 1 .prompt
      (extractPromptText twoMessages) where
  ids := by decide +kernel
  named := by decide +kernel
  apart := mission_apart .prompt
  others := by decide +kernel

/-- The rule that redacts one word, whatever its case. -/
def redactAnyCase (target : Target) (word : String) : AiPolicyRule :=
  { redactWord target word with conditionJson := [("keyword", .str word)] }

/-- A request and a response with one text; the capital sigmas of the request stand away from the
word. -/
def oneMessage : Json.Members :=
  [("messages", .arr [.obj [("role", .str "system"), ("content", .str " ")],
    userMessage "ΣΟΣ Mission at noon"])]

def oneChoice : Json.Members :=
  [("choices", .arr [.obj [("message", userMessage "mission at noon")]])]

theorem anyCase_apart :
    ∀ rule ∈ redactRules [redactAnyCase .prompt "mission"] 1 .prompt,
      ∀ c ∈ plainRuntime.letters.lowerChars redacted.toList,
        c ∉ plainRuntime.letters.lowerChars (keywordOf plainRuntime rule.conditionJson).toList := by
  have hall : (redactRules [redactAnyCase .prompt "mission"] 1 .prompt).all (fun rule =>
      (plainRuntime.letters.lowerChars redacted.toList).all fun c => decide
        (c ∉ plainRuntime.letters.lowerChars
          (keywordOf plainRuntime rule.conditionJson).toList)) = true := by rfl
  simpa only [List.all_eq_true, decide_eq_true_eq] using hall

/-- A word whose first letter stands once in the text does not stand there twice. -/
theorem notTwice_of_count {word : List Char} {s : List (Char × List Char)} {c : Char}
    (hc : c ∈ word) (hcount : (reading s).count c ≤ 1) : NotTwice word s := by
  intro a k b k' d hk hk' heq
  have hpos := List.count_pos_iff.mpr hc
  rw [heq] at hcount
  simp only [reading_append, List.count_append, hk, hk'] at hcount
  omega

theorem foundOnce_anyCase :
    FoundOnce plainRuntime [redactAnyCase .prompt "mission"] (redactAnyCase .prompt "mission")
      (strip "ΣΟΣ Mission at noon").toList := by
  refine FoundOnce.of_single (by decide +kernel) (by decide +kernel) (by decide +kernel)
    (notTwice_of_count (c := 'm') (by decide +kernel) (by decide +kernel))

theorem foundOnce_word :
    FoundOnce plainRuntime [redactWord .response "mission"] (redactWord .response "mission")
      (strip "mission at noon").toList := by
  refine FoundOnce.of_single (by decide +kernel) (by decide +kernel) (by decide +kernel)
    (notTwice_of_count (c := 'm') (by decide +kernel) (by decide +kernel))

theorem onlyText_last {content : Json → Option String} {pre : List Json} {v : Json} {c : String}
    (hv : content v = some c) (hc : strip c ≠ "")
    (hpre : ∀ u ∈ pre, ∀ c', content u = some c' → strip c' = "") :
    OnlyText content pre v [] c where
  here := hv
  text := hc
  elsewhere := by
    intro u hu
    rw [List.append_nil] at hu
    exact hpre u hu

end AiPolicy
