import DataRelay.AiPolicy.PromptInspection

/-! Whether the inspected text of a response holds the answer. Each adapter finds the answer in
its provider's own format, the client is given the payload in that format, and the inspector
knows one of the three. -/
namespace AiPolicy
open Runner PyText

variable (rt : Runtime)

/-- A string, `null` or nothing at all. -/
def TextOrAbsent (v : Option Json) : Prop := ∀ j ∈ v, j = .null ∨ ∃ c, j = .str c

/-- A chat completion: a list of choices, each with a message. -/
def ChatCompletion (payload : Json.Members) : Prop :=
  Dict.get? "content" payload = none ∧
    ∃ choices, Dict.get? "choices" payload = some (.arr choices) ∧
      ∀ v ∈ choices, ∃ choice message, v = .obj choice ∧
        Dict.get? "message" choice = some (.obj message) ∧
        TextOrAbsent (Dict.get? "content" message)

/-- A Claude message: a list of content blocks, those of text with a string. -/
def ClaudeMessage (payload : Json.Members) : Prop :=
  Dict.get? "choices" payload = none ∧
    ∃ blocks, Dict.get? "content" payload = some (.arr blocks) ∧
      ∀ v ∈ blocks, ∃ block, v = .obj block ∧ TextOrAbsent (Dict.get? "text" block)

/-- A Gemini content: a list of parts, those of text with a string. -/
def GeminiParts (v : Json) : Prop :=
  ∃ content, v = .obj content ∧ ∀ w ∈ Dict.get? "parts" content, ∃ parts, w = .arr parts ∧
    ∀ u ∈ parts, ∃ part, u = .obj part ∧ TextOrAbsent (Dict.get? "text" part)

/-- A Gemini response: a list of candidates, each with a content unless it was cut off. -/
def GeminiResponse (payload : Json.Members) : Prop :=
  Dict.get? "content" payload = none ∧ Dict.get? "choices" payload = none ∧
    ∃ candidates, Dict.get? "candidates" payload = some (.arr candidates) ∧
      ∀ v ∈ candidates, ∃ candidate, v = .obj candidate ∧
        ∀ content ∈ Dict.get? "content" candidate, GeminiParts content

def WellFormedPayload : Provider → Json.Members → Prop
  | .openai => ChatCompletion
  | .claude => ClaudeMessage
  | .gemini => GeminiResponse

/-- The place of the answer in the provider's format. -/
def answerAt (p : Provider) (payload : Json.Members) : Option Json :=
  match p with
  | .openai => memberOf "content" (memberOf "message" (firstOf (Dict.get? "choices" payload)))
  | .claude => memberOf "text" (firstOf (Dict.get? "content" payload))
  | .gemini => memberOf "text" (firstOf (memberOf "parts"
      (memberOf "content" (firstOf (Dict.get? "candidates" payload)))))

/-! ### Reading a well-formed payload -/

theorem textOrAbsent_none : TextOrAbsent none := by
  intro j hj
  cases hj

theorem textOrAbsent_first {key : String} {items : List Json}
    (h : ∀ v ∈ items, ∃ members, v = .obj members ∧ TextOrAbsent (Dict.get? key members)) :
    TextOrAbsent (memberOf key (firstOf (some (.arr items)))) := by
  cases items with
  | nil => exact textOrAbsent_none
  | cons v vs =>
    obtain ⟨members, rfl, htext⟩ := h v List.mem_cons_self
    exact htext

theorem textOrAbsent_parts {v : Option Json} (h : ∀ content ∈ v, GeminiParts content) :
    TextOrAbsent (memberOf "text" (firstOf (memberOf "parts" v))) := by
  cases v with
  | none => exact textOrAbsent_none
  | some j =>
    obtain ⟨content, rfl, hparts⟩ := h j rfl
    show TextOrAbsent (memberOf "text" (firstOf (Dict.get? "parts" content)))
    cases hget : Dict.get? "parts" content with
    | none => exact textOrAbsent_none
    | some w =>
      obtain ⟨parts, rfl, hall⟩ := hparts w hget
      exact textOrAbsent_first hall

theorem textOrAbsent_answerAt {p : Provider} {payload : Json.Members}
    (h : WellFormedPayload p payload) : TextOrAbsent (answerAt p payload) := by
  cases p with
  | openai =>
    obtain ⟨-, choices, hchoices, hall⟩ := h
    cases choices with
    | nil => simpa [answerAt, hchoices, firstOf, memberOf] using textOrAbsent_none
    | cons v vs =>
      obtain ⟨choice, message, rfl, hmessage, htext⟩ := hall v List.mem_cons_self
      simpa [answerAt, hchoices, firstOf, memberOf, hmessage] using htext
  | claude =>
    obtain ⟨-, blocks, hblocks, hall⟩ := h
    rw [answerAt, hblocks]
    exact textOrAbsent_first hall
  | gemini =>
    obtain ⟨-, -, candidates, hcandidates, hall⟩ := h
    cases candidates with
    | nil => simpa [answerAt, hcandidates, firstOf, memberOf] using textOrAbsent_none
    | cons v vs =>
      obtain ⟨candidate, rfl, hcandidate⟩ := hall v List.mem_cons_self
      have hplace : answerAt .gemini payload = memberOf "text" (firstOf (memberOf "parts"
          (Dict.get? "content" candidate))) := by
        simp [answerAt, hcandidates, firstOf, memberOf]
      rw [hplace]
      exact textOrAbsent_parts hcandidate

/-- The adapter's answer is the text at that place, and the client gets the payload itself. -/
theorem readResponse_eq {p : Provider} {payload : Json.Members}
    (h : WellFormedPayload p payload) :
    readResponse rt p (.obj payload) = .ok ⟨rt.textOr (answerAt p payload), payload⟩ := by
  cases p with
  | openai => rfl
  | claude => rfl
  | gemini =>
    obtain ⟨-, -, candidates, hcandidates, hall⟩ := h
    cases candidates with
    | nil =>
      simp [readResponse, geminiAnswer, answerAt, hcandidates, firstOf, memberOf, Runtime.textOr,
        Runtime.strOrEmpty, truthy, bind, Except.bind]
    | cons v vs =>
      obtain ⟨candidate, rfl, hcandidate⟩ := hall v List.mem_cons_self
      cases hget : Dict.get? "content" candidate with
      | none =>
        simp [readResponse, geminiAnswer, answerAt, hcandidates, firstOf, memberOf, hget,
          Runtime.textOr, Runtime.strOrEmpty, truthy, bind, Except.bind]
      | some j =>
        obtain ⟨content, rfl, -⟩ := hcandidate j hget
        simp [readResponse, geminiAnswer, answerAt, hcandidates, firstOf, memberOf, hget, bind,
          Except.bind]

/-- The answer is the string at its place, or nothing. -/
theorem textOr_of_textOrAbsent {v : Option Json} (h : TextOrAbsent v) :
    (∃ c, v = some (.str c) ∧ rt.textOr v = c) ∨
      (nonBlank? v = none ∧ rt.textOr v = "") := by
  cases v with
  | none => exact .inr ⟨rfl, rfl⟩
  | some j =>
    rcases h j rfl with rfl | ⟨c, rfl⟩
    · exact .inr ⟨rfl, rfl⟩
    · refine .inl ⟨c, rfl, ?_⟩
      by_cases hempty : c = ""
      · subst hempty
        rfl
      · have htruthy : truthy (.str c) = true := by simpa [truthy] using hempty
        simp [Runtime.textOr, Runtime.strOrEmpty, htruthy, Sources.TextRuntime.str,
          Dedup.scalarText]

theorem strip_textOr_eq_empty_iff {v : Option Json} (h : TextOrAbsent v) :
    strip (rt.textOr v) = "" ↔ nonBlank? v = none := by
  rcases textOr_of_textOrAbsent rt h with ⟨c, rfl, htext⟩ | ⟨hnone, htext⟩
  · rw [htext]
    simp [nonBlank?]
  · rw [htext]
    simp only [hnone, iff_true]
    rfl

/-! ### What the client receives -/

/-- The adapter's answer is inspected, and the client receives no answer that has the keyword of
a blocking rule. -/
structure ResponseInspected (p : Provider) (payload : Json.Members) : Prop where
  seen : ∀ normalized, readResponse rt p (.obj payload) = .ok normalized → ∀ rows aiStreamId,
    stripChars normalized.content.toList <:+:
      (inspectResponse rt rows aiStreamId normalized.raw).text.toList
  withheld : ∀ normalized, readResponse rt p (.obj payload) = .ok normalized →
    ∀ rows aiStreamId rule, BlockingKeyword rt rows aiStreamId .response rule →
      aiKeywordMatches rt rule.conditionJson normalized.content = true →
      ∀ config auth event answer, (∀ http, answer http = .ok (.obj payload)) →
        (send rt ⟨p, config, auth, some (rows, aiStreamId)⟩ answer [event] {}).holder = none

/-- A response that the policy refuses does not reach the client. -/
theorem holder_of_refused {p : Provider} {policy : Option (List AiPolicyRule × ℤ)}
    {payload : Json} {normalized : NormalizedResponse} {e : SendError}
    (hread : readResponse rt p payload = .ok normalized)
    (hrefused : enforceResponseAfterProvider rt policy normalized.raw = .error e)
    (config auth event : Json.Members) {answer : ProviderHttpRequest → Except SendError Json}
    (hanswer : ∀ http, answer http = .ok payload) :
    (send rt ⟨p, config, auth, policy⟩ answer [event] {}).holder = none := by
  rw [send_singleton, sendEvent]
  split
  · rfl
  · next http _ =>
    have hcall : callProvider rt ⟨p, config, auth, policy⟩ answer http = .error e := by
      simp [callProvider, hanswer, hread, hrefused, bind, Except.bind]
    rw [hcall]

theorem withheld_of_repeats {p : Provider} {payload : Json.Members}
    {normalized : NormalizedResponse} {rows : List AiPolicyRule} {aiStreamId : ℤ}
    {rule : AiPolicyRule} (hread : readResponse rt p (.obj payload) = .ok normalized)
    (hrule : BlockingKeyword rt rows aiStreamId .response rule)
    (hrepeats : rt.letters.Repeats normalized.content (extractResponseText normalized.raw))
    (hocc : aiKeywordMatches rt rule.conditionJson normalized.content = true)
    (config auth event : Json.Members) {answer : ProviderHttpRequest → Except SendError Json}
    (hanswer : ∀ http, answer http = .ok (.obj payload)) :
    (send rt ⟨p, config, auth, some (rows, aiStreamId)⟩ answer [event] {}).holder = none := by
  have htext : aiKeywordMatches rt rule.conditionJson
      (extractResponseText normalized.raw) = true := by
    rw [hrule.matches_iff] at hocc ⊢
    exact rt.letters.occurs_of_repeats hrule.trimmed hrepeats hocc
  obtain ⟨e, he⟩ := enforceInspection_blocked rt hrule htext normalized.raw applyResponseText
  have hrefused : enforceResponseAfterProvider rt (some (rows, aiStreamId)) normalized.raw =
      .error (.policy e) := by
    simp only [enforceResponseAfterProvider, enforceResponsePolicy, inspectResponse, he,
      Except.mapError]
  exact holder_of_refused rt hread hrefused config auth event hanswer

/-- What the inspector reads of another format than the chat completion is empty. -/
theorem extractResponseText_eq_empty {p : Provider} {payload : Json.Members}
    (h : WellFormedPayload p payload) (hp : p ≠ .openai) : extractResponseText payload = "" := by
  cases p with
  | openai => exact absurd rfl hp
  | claude =>
    obtain ⟨hchoices, blocks, hblocks, -⟩ := h
    simp [extractResponseText, hchoices, hblocks, nonBlank?]
  | gemini =>
    obtain ⟨hcontent, hchoices, -⟩ := h
    simp [extractResponseText, hcontent, hchoices, nonBlank?]

/-- The answer of a chat completion is one of the texts the inspector joins. -/
theorem repeats_chatCompletion {payload : Json.Members} {c : String}
    (h : ChatCompletion payload) (hc : answerAt .openai payload = some (.str c)) :
    rt.letters.Repeats c (extractResponseText payload) := by
  by_cases hblank : strip c = ""
  · exact rt.letters.repeats_of_blank hblank _
  obtain ⟨hcontent, choices, hchoices, hall⟩ := h
  cases choices with
  | nil => simp [answerAt, hchoices, firstOf, memberOf] at hc
  | cons v vs =>
    obtain ⟨choice, message, rfl, hmessage, -⟩ := hall v List.mem_cons_self
    have hget : Dict.get? "content" message = some (.str c) := by
      simpa [answerAt, hchoices, firstOf, memberOf, hmessage] using hc
    have hpart : choicePart (.obj choice) = some (strip c) := by
      simp [choicePart, hmessage, hget, nonBlank?, hblank]
    have hmem : strip c ∈ (Json.obj choice :: vs).filterMap choicePart :=
      List.mem_filterMap.mpr ⟨_, List.mem_cons_self, hpart⟩
    have htext : extractResponseText payload =
        joinLines ((Json.obj choice :: vs).filterMap choicePart) := by
      simp [extractResponseText, hcontent, hchoices, nonBlank?]
    rw [htext]
    exact rt.letters.repeats_joinLines hmem

/-- An answer that is repeated in the inspected text is inspected. -/
theorem responseInspected_of_repeats {p : Provider} {payload : Json.Members}
    (h : WellFormedPayload p payload)
    (hrepeats : rt.letters.Repeats (rt.textOr (answerAt p payload))
      (extractResponseText payload)) : ResponseInspected rt p payload := by
  have hread := readResponse_eq rt h
  constructor
  · intro normalized hnormalized rows aiStreamId
    rw [hread] at hnormalized
    obtain rfl := Except.ok.inj hnormalized
    exact hrepeats.1
  · intro normalized hnormalized rows aiStreamId rule hrule hocc config auth event answer hanswer
    have heq := hnormalized
    rw [hread] at heq
    obtain rfl := Except.ok.inj heq
    exact withheld_of_repeats rt hread hrule hrepeats hocc config auth event hanswer

/-- The inspection of a well-formed response is complete exactly when the provider is OpenAI or
the answer has no text. -/
theorem responseInspected_iff {p : Provider} {payload : Json.Members}
    (h : WellFormedPayload p payload) :
    ResponseInspected rt p payload ↔
      p = .openai ∨ nonBlank? (answerAt p payload) = none := by
  have htext := textOrAbsent_answerAt h
  constructor
  · intro hinspected
    by_cases hp : p = .openai
    · exact .inl hp
    right
    have hseen := hinspected.seen _ (readResponse_eq rt h) [] 1
    have hempty : (inspectResponse rt [] 1 payload).text = "" := extractResponseText_eq_empty h hp
    rw [hempty] at hseen
    have hnil : stripChars (rt.textOr (answerAt p payload)).toList = [] :=
      List.infix_nil.mp (by simpa using hseen)
    rw [← strip_textOr_eq_empty_iff rt htext, strip, hnil, String.ofList_nil]
  · intro hcond
    apply responseInspected_of_repeats rt h
    rcases textOr_of_textOrAbsent rt htext with ⟨c, hc, hanswer⟩ | ⟨-, hanswer⟩
    · rcases hcond with rfl | hblank
      · rw [hanswer]
        exact repeats_chatCompletion rt h hc
      · exact rt.letters.repeats_of_blank ((strip_textOr_eq_empty_iff rt htext).mpr hblank) _
    · rw [hanswer]
      exact rt.letters.repeats_of_blank (by rfl) _

/-! ### A Claude message -/

/-- What Claude answers. -/
def claudePayload : Json.Members :=
  [("id", .str "msg"), ("content", .arr [.obj [("type", .str "text"),
    ("text", .str "the launch code")]])]

theorem claudeMessage_claudePayload : ClaudeMessage claudePayload := by
  refine ⟨by rfl, [.obj [("type", .str "text"), ("text", .str "the launch code")]],
    by rfl, ?_⟩
  intro v hv
  obtain rfl := List.mem_singleton.mp hv
  refine ⟨_, rfl, ?_⟩
  intro j hj
  obtain rfl := Option.some.inj hj
  exact .inr ⟨"the launch code", rfl⟩

/-- The client receives a message that has the blocked word. -/
theorem claude_uninspected :
    ClaudeMessage claudePayload ∧
      (send plainRuntime ⟨.claude, [], demoAuth, some ([blockWord .response "launch"], 1)⟩
        (fun _ => .ok (.obj claudePayload))
        [buildAiIngressEvent plainRuntime "claude" stringBody] {}).holder = some claudePayload ∧
      ¬ ResponseInspected plainRuntime .claude claudePayload := by
  refine ⟨claudeMessage_claudePayload, by rfl, ?_⟩
  intro h
  have hread : readResponse plainRuntime .claude (.obj claudePayload) =
      .ok ⟨"the launch code", claudePayload⟩ := by rfl
  have hseen := h.seen _ hread [] 1
  exact absurd hseen (by decide +kernel)

/-- What OpenAI answers. -/
def openaiPayload : Json.Members :=
  [("choices", .arr [.obj [("message", .obj [("content", .str "hello")])]])]

theorem openaiPayload_inspected :
    ChatCompletion openaiPayload ∧ ResponseInspected plainRuntime .openai openaiPayload := by
  have hwf : ChatCompletion openaiPayload := by
    refine ⟨by rfl, [.obj [("message", .obj [("content", .str "hello")])]],
      by rfl, ?_⟩
    intro v hv
    obtain rfl := List.mem_singleton.mp hv
    refine ⟨_, _, rfl, rfl, ?_⟩
    intro j hj
    obtain rfl := Option.some.inj hj
    exact .inr ⟨"hello", rfl⟩
  exact ⟨hwf, (responseInspected_iff plainRuntime (p := .openai) hwf).mpr (.inl rfl)⟩

end AiPolicy
