import DataRelay.Lib.Raising
import DataRelay.AiPolicy.ProviderPost

/-! Whether the inspected text of a request holds everything that goes to the provider. The
inspector reads the contents that are strings, and `prompt` only when there are none; the
builders forward contents of every shape, and one of them the whole body. -/
namespace AiPolicy
open Runner PyText

mutual
/-- The strings a value holds, at any depth. -/
def strings : Json → List String
  | .str s => [s]
  | .arr items => stringsItems items
  | .obj members => stringsMembers members
  | _ => []

def stringsItems : List Json → List String
  | [] => []
  | v :: vs => strings v ++ stringsItems vs

def stringsMembers : Json.Members → List String
  | [] => []
  | (_, v) :: ms => strings v ++ stringsMembers ms
end

theorem mem_stringsItems {s : String} {items : List Json} :
    s ∈ stringsItems items ↔ ∃ v ∈ items, s ∈ strings v := by
  induction items with
  | nil => simp [stringsItems]
  | cons v vs ih => simp [stringsItems, ih]

theorem mem_stringsMembers {s : String} {members : Json.Members} :
    s ∈ stringsMembers members ↔ ∃ m ∈ members, s ∈ strings m.2 := by
  induction members with
  | nil => simp [stringsMembers]
  | cons m ms ih => simp [stringsMembers, ih]

variable (rt : Runtime)

/-- The texts the provider's builder makes of one message's content: OpenAI's forwards the
content as it is, the others its `str`. -/
def carried (p : Provider) (message : Json.Members) : List String :=
  match p with
  | .openai => strings (getOrNull "content" message)
  | .claude => [contentText rt message]
  | .gemini => [contentText rt message]

/-- A string of the message's content shows in what is built of the message. -/
def Shows (p : Provider) (message : Json.Members) (s : String) : Prop :=
  s ∈ strings (getOrNull "content" message) ∧
    ∃ t ∈ carried rt p message, s.toList <:+: t.toList

/-- A string of a message's content, or of `prompt`, that the builder forwards. -/
def Forwarded (p : Provider) (request : Json.Members) (s : String) : Prop :=
  (∃ message, .obj message ∈ listOf "messages" request ∧ Shows rt p message s) ∨
    (p = .openai ∧ s ∈ strings (getOrNull "prompt" request))

/-- The string occurs in a string of the HTTP body. -/
def AppearsIn (http : ProviderHttpRequest) (s : String) : Prop :=
  ∃ t ∈ strings (.obj http.jsonBody), s.toList <:+: t.toList

/-! ### The builders forward -/

theorem mem_strings_of_get? {key : String} {members : Json.Members} {v : Json} {s : String}
    (hv : Dict.get? key members = some v) (hs : s ∈ strings v) : s ∈ strings (.obj members) :=
  mem_stringsMembers.mpr ⟨(key, v), Dict.mem_of_get? hv, hs⟩

theorem mem_strings_of_getOrNull {key : String} {members : Json.Members} {s : String}
    (hs : s ∈ strings (getOrNull key members)) :
    ∃ v, Dict.get? key members = some v ∧ s ∈ strings v := by
  unfold getOrNull at hs
  cases hv : Dict.get? key members with
  | none => simp [hv, strings] at hs
  | some v => exact ⟨v, rfl, by simpa [hv] using hs⟩

theorem get?_messages_of_mem {request : Json.Members} {v : Json}
    (h : v ∈ listOf "messages" request) :
    ∃ items, Dict.get? "messages" request = some (.arr items) ∧ v ∈ items := by
  unfold listOf at h
  split at h
  · next items hitems => exact ⟨items, hitems, h⟩
  · simp at h

theorem get?_of_setConverted {key l : String} {convert : Json → Except SendError Json}
    {value : Json} {body body' : Json.Members}
    (h : setConverted key convert value body = .ok body') (hl : l ≠ key) :
    Dict.get? l body' = Dict.get? l body := by
  unfold setConverted at h
  split_ifs at h with hnull
  · obtain rfl := Except.ok.inj h
    rfl
  · obtain ⟨converted, -, hset⟩ := Raising.bind_eq_ok h
    obtain rfl := Except.ok.inj hset
    simp [hl.symm]

theorem jsonBody_of_openaiRequest {request config auth : Json.Members}
    {http : ProviderHttpRequest} (h : openaiRequest rt request config auth = .ok http) :
    ∃ model, http.jsonBody =
      Dict.set "stream" (.bool false) (Dict.set "model" (.str model) request) := by
  unfold openaiRequest at h
  split at h
  · cases h
  · next model _ =>
    split_ifs at h
    obtain ⟨headers, -, hok⟩ := Raising.bind_eq_ok h
    obtain rfl := Except.ok.inj hok
    exact ⟨model, rfl⟩

theorem get?_messages_of_claudeRequest {request config auth : Json.Members}
    {http : ProviderHttpRequest} (h : claudeRequest rt request config auth = .ok http) :
    ∃ ping, Dict.get? "messages" http.jsonBody =
        some (orPing ping ((listOf "messages" request).filterMap (anthropicMessage rt))) ∧
      ((listOf "messages" request).filterMap (systemPart rt) ≠ [] →
        Dict.get? "system" http.jsonBody =
          some (.str (joinLines ((listOf "messages" request).filterMap (systemPart rt))))) := by
  obtain ⟨headers, -, h⟩ := Raising.bind_eq_ok h
  obtain ⟨body, hbody, hok⟩ := Raising.bind_eq_ok h
  obtain rfl := Except.ok.inj hok
  obtain ⟨maxTokens, -, hset⟩ := Raising.bind_eq_ok hbody
  refine ⟨.obj [("role", .str "user"), ("content", .str "ping")], ?_, ?_⟩
  · rw [get?_of_setConverted hset (by decide)]
    split_ifs <;> simp
  · intro hne
    rw [get?_of_setConverted hset (by decide), if_neg hne]
    simp

theorem get?_contents_of_geminiRequest {request config auth : Json.Members}
    {http : ProviderHttpRequest} (h : geminiRequest rt request config auth = .ok http) :
    ∃ ping, Dict.get? "contents" http.jsonBody =
      some (orPing ping ((listOf "messages" request).filterMap (geminiContent rt))) := by
  obtain ⟨headers, -, h⟩ := Raising.bind_eq_ok h
  obtain ⟨body, hbody, hok⟩ := Raising.bind_eq_ok h
  obtain rfl := Except.ok.inj hok
  obtain ⟨tuned, -, hbody⟩ := Raising.bind_eq_ok hbody
  obtain ⟨settings, -, hbody⟩ := Raising.bind_eq_ok hbody
  obtain rfl := Except.ok.inj hbody
  refine ⟨.obj [("role", .str "user"), ("parts", .arr [.obj [("text", .str "ping")]])], ?_⟩
  split_ifs <;> simp

theorem mem_strings_orPing {ping v : Json} {items : List Json} {t : String} (hv : v ∈ items)
    (ht : t ∈ strings v) : t ∈ strings (orPing ping items) := by
  rw [orPing, if_neg (List.ne_nil_of_mem hv)]
  exact mem_stringsItems.mpr ⟨v, hv, ht⟩

/-- What the builder makes of a message is in the body it builds. -/
theorem appearsIn_of_carried {p : Provider} {request config auth message : Json.Members}
    {http : ProviderHttpRequest} (hbuilt : buildHttpRequest rt p request config auth = .ok http)
    (hmem : .obj message ∈ listOf "messages" request) {t : String}
    (ht : t ∈ carried rt p message) : AppearsIn http t := by
  cases p with
  | openai =>
    obtain ⟨model, hbody⟩ := jsonBody_of_openaiRequest rt hbuilt
    obtain ⟨items, hitems, hitem⟩ := get?_messages_of_mem hmem
    obtain ⟨v, hv, htv⟩ := mem_strings_of_getOrNull ht
    have hget : Dict.get? "messages" http.jsonBody = some (.arr items) := by
      simp [hbody, hitems]
    refine ⟨t, mem_strings_of_get? hget ?_, List.infix_rfl⟩
    exact mem_stringsItems.mpr ⟨_, hitem, mem_strings_of_get? hv htv⟩
  | claude =>
    obtain ⟨ping, hmessages, hsystem⟩ := get?_messages_of_claudeRequest rt hbuilt
    obtain rfl := List.mem_singleton.mp ht
    by_cases hrole : roleOf rt message = "system"
    · have hpart : contentText rt message ∈ (listOf "messages" request).filterMap (systemPart rt) :=
        List.mem_filterMap.mpr ⟨_, hmem, by simp [systemPart, hrole]⟩
      have hget := hsystem (List.ne_nil_of_mem hpart)
      refine ⟨_, mem_strings_of_get? hget (List.mem_singleton.mpr rfl), ?_⟩
      simpa [joinLines] using
        infix_intercalate (s := ['\n']) (List.mem_map_of_mem (f := String.toList) hpart)
    · have hbuilt' : anthropicMessage rt (.obj message) = some (.obj [
          ("role", .str (if roleOf rt message = "user" then "user" else "assistant")),
          ("content", .str (contentText rt message))]) := by
        rw [anthropicMessage, if_neg hrole]
      have hitem := List.mem_filterMap.mpr ⟨_, hmem, hbuilt'⟩
      refine ⟨_, mem_strings_of_get? hmessages (mem_strings_orPing hitem ?_), List.infix_rfl⟩
      simp [strings, stringsMembers]
  | gemini =>
    obtain ⟨ping, hcontents⟩ := get?_contents_of_geminiRequest rt hbuilt
    obtain rfl := List.mem_singleton.mp ht
    have hitem := List.mem_filterMap.mpr ⟨_, hmem, geminiContent.eq_1 rt message⟩
    refine ⟨_, mem_strings_of_get? hcontents (mem_strings_orPing hitem ?_), List.infix_rfl⟩
    simp [strings, stringsMembers, stringsItems]

/-- A forwarded string is in the body that is built. -/
theorem appearsIn_of_forwarded {p : Provider} {request config auth : Json.Members}
    {http : ProviderHttpRequest} (hbuilt : buildHttpRequest rt p request config auth = .ok http)
    {s : String} (hs : Forwarded rt p request s) : AppearsIn http s := by
  rcases hs with ⟨message, hmem, -, t, ht, hst⟩ | ⟨rfl, hprompt⟩
  · obtain ⟨u, hu, htu⟩ := appearsIn_of_carried rt hbuilt hmem ht
    exact ⟨u, hu, hst.trans htu⟩
  · obtain ⟨model, hbody⟩ := jsonBody_of_openaiRequest rt hbuilt
    obtain ⟨v, hv, hsv⟩ := mem_strings_of_getOrNull hprompt
    have hget : Dict.get? "prompt" http.jsonBody = some v := by simp [hbody, hv]
    exact ⟨s, mem_strings_of_get? hget hsv, List.infix_rfl⟩

/-! ### What the inspector reads -/

/-- The contents that are strings, trimmed, without the blank ones. -/
def stringContents (request : Json.Members) : List String :=
  (listOf "messages" request).filterMap messagePart

/-- The string contents line by line; `prompt`, when it is a string, in their absence. -/
def readText (request : Json.Members) : String :=
  if stringContents request = [] then promptText request else joinLines (stringContents request)

theorem ne_empty_of_nonBlank? {v : Option Json} {t : String} (h : nonBlank? v = some t) :
    t ≠ "" := by
  unfold nonBlank? at h
  split at h
  · split_ifs at h with hblank
    obtain rfl := Option.some.inj h
    exact hblank
  · cases h

theorem joinLines_ne_empty {parts : List String} {t : String} (ht : t ∈ parts) (hne : t ≠ "") :
    joinLines parts ≠ "" := by
  intro hempty
  have hin := infix_intercalate (s := ['\n']) (List.mem_map_of_mem (f := String.toList) ht)
  have hnil : ['\n'].intercalate (parts.map String.toList) = [] := by
    simpa [joinLines] using congrArg String.toList hempty
  rw [hnil, List.infix_nil] at hin
  exact hne (String.toList_inj.mp hin)

/-- The text `inspect_prompt` evaluates. -/
theorem extractPromptText_eq_readText (request : Json.Members) :
    extractPromptText request = readText request := by
  unfold extractPromptText readText stringContents listOf
  cases hget : Dict.get? "messages" request with
  | none => simp
  | some v =>
    cases v with
    | arr items =>
      show (if messageText items = "" then promptText request else messageText items) =
        if items.filterMap messagePart = [] then promptText request
        else joinLines (items.filterMap messagePart)
      by_cases hnone : items.filterMap messagePart = []
      · have htext : messageText items = "" := by rw [messageText, hnone]; rfl
        rw [if_pos htext, if_pos hnone]
      · obtain ⟨t, ht⟩ := List.exists_mem_of_ne_nil _ hnone
        obtain ⟨item, -, hpart⟩ := List.mem_filterMap.mp ht
        have hne : t ≠ "" := by
          cases item with
          | obj message => exact ne_empty_of_nonBlank? hpart
          | _ => cases hpart
        have htext : messageText items ≠ "" := joinLines_ne_empty ht hne
        rw [if_neg htext, if_neg hnone, messageText]
    | _ => simp

theorem inspectPrompt_text (rows : List AiPolicyRule) (aiStreamId : ℤ)
    (request : Json.Members) :
    (inspectPrompt rt rows aiStreamId request).text = readText request :=
  extractPromptText_eq_readText request

/-- A string content is read. -/
theorem repeats_stringContent {request message : Json.Members} {c : String}
    (hmem : .obj message ∈ listOf "messages" request)
    (hc : getOrNull "content" message = .str c) :
    rt.letters.Repeats c (readText request) := by
  by_cases hblank : strip c = ""
  · exact rt.letters.repeats_of_blank hblank _
  have hget : Dict.get? "content" message = some (.str c) := by
    unfold getOrNull at hc
    cases hv : Dict.get? "content" message with
    | none => simp [hv] at hc
    | some v => simpa [hv] using hc
  have hpart : strip c ∈ stringContents request :=
    List.mem_filterMap.mpr ⟨_, hmem, by simp [messagePart, hget, nonBlank?, hblank]⟩
  rw [readText, if_neg (List.ne_nil_of_mem hpart)]
  exact rt.letters.repeats_joinLines hpart

/-- `prompt` is what the inspector reads: no content has text, and it is a string. -/
def PromptRead (request : Json.Members) : Prop :=
  stringContents request = [] ∧ ∃ prompt, getOrNull "prompt" request = .str prompt

theorem repeats_promptRead {request : Json.Members} (h : PromptRead request) {s : String}
    (hs : s ∈ strings (getOrNull "prompt" request)) :
    rt.letters.Repeats s (readText request) := by
  obtain ⟨hnone, prompt, hprompt⟩ := h
  rw [hprompt] at hs
  obtain rfl := List.mem_singleton.mp hs
  have hget : Dict.get? "prompt" request = some (.str s) := by
    unfold getOrNull at hprompt
    cases hv : Dict.get? "prompt" request with
    | none => simp [hv] at hprompt
    | some v => simpa [hv] using hprompt
  have htext : readText request = s := by simp [readText, hnone, promptText, hget]
  rw [htext]
  exact rt.letters.repeats_self s

/-- Every string that the builder forwards from a place the inspector does not read, a content
that is not itself a string or a `prompt` that is passed over, is blank or repeated in what it
reads. -/
structure UnreadRepeated (p : Provider) (request : Json.Members) : Prop where
  contents : ∀ message, .obj message ∈ listOf "messages" request →
    (∀ c, getOrNull "content" message ≠ .str c) → ∀ s, Shows rt p message s →
      rt.letters.Repeats s (readText request)
  prompt : p = .openai → ¬ PromptRead request →
    ∀ s ∈ strings (getOrNull "prompt" request), rt.letters.Repeats s (readText request)

theorem unreadRepeated_iff {p : Provider} {request : Json.Members} :
    UnreadRepeated rt p request ↔
      ∀ s, Forwarded rt p request s → rt.letters.Repeats s (readText request) := by
  constructor
  · rintro h s (⟨message, hmem, hshows⟩ | ⟨hp, hs⟩)
    · by_cases hstr : ∃ c, getOrNull "content" message = .str c
      · obtain ⟨c, hc⟩ := hstr
        have hs := hshows.1
        rw [hc] at hs
        obtain rfl := List.mem_singleton.mp hs
        exact repeats_stringContent rt hmem hc
      · exact h.contents message hmem (fun c hc => hstr ⟨c, hc⟩) s hshows
    · by_cases hread : PromptRead request
      · exact repeats_promptRead rt hread hs
      · exact h.prompt hp hread s hs
  · intro h
    exact {
      contents := fun message hmem _ s hshows => h s (.inl ⟨message, hmem, hshows⟩)
      prompt := fun hp _ s hs => h s (.inr ⟨hp, hs⟩) }

/-! ### What is sent -/

theorem extractProviderRequest_ingress (configuredModel : String) (body : Json.Members) :
    extractProviderRequest (buildAiIngressEvent rt configuredModel body) =
      .ok (ingressBody rt configuredModel body) := by
  have hget : Dict.get? "stream" (ingressBody rt configuredModel body) = some (.bool false) := by
    simp [ingressBody]
  cases hbody : ingressBody rt configuredModel body with
  | nil => simp [hbody] at hget
  | cons m ms => simp [extractProviderRequest, buildAiIngressEvent, memberOf, hbody]

/-- A request that the policy refuses is not sent. -/
theorem requests_of_refused {policy : Option (List AiPolicyRule × ℤ)}
    {event request : Json.Members} {e : SendError}
    (hrequest : extractProviderRequest event = .ok request)
    (hrefused : enforcePromptBeforeProvider rt policy request = .error e) (p : Provider)
    (config auth : Json.Members) (answer : ProviderHttpRequest → Except SendError Json) :
    (send rt ⟨p, config, auth, policy⟩ answer [event] {}).requests = [] := by
  rw [send_singleton]
  simp [sendEvent, hrequest, hrefused, bind, Except.bind]

/-- A request that the policy passes is sent as it is built. -/
theorem requests_of_passed {policy : Option (List AiPolicyRule × ℤ)} {p : Provider}
    {event request enforced config auth : Json.Members} {http : ProviderHttpRequest}
    (hrequest : extractProviderRequest event = .ok request)
    (hpassed : enforcePromptBeforeProvider rt policy request = .ok enforced)
    (hbuilt : buildHttpRequest rt p enforced config auth = .ok http)
    (answer : ProviderHttpRequest → Except SendError Json) :
    (send rt ⟨p, config, auth, policy⟩ answer [event] {}).requests = [http] := by
  rw [send_singleton]
  simp only [sendEvent, hrequest, hpassed, bind, Except.bind, hbuilt]
  split <;> rfl

/-- What is forwarded of the body is inspected, and no request goes out with a forwarded string
that has the keyword of a blocking rule. -/
structure PromptInspected (p : Provider) (config auth : Json.Members) (configuredModel : String)
    (body : Json.Members) : Prop where
  seen : ∀ rows aiStreamId s, Forwarded rt p (ingressBody rt configuredModel body) s →
    stripChars s.toList <:+:
      (inspectPrompt rt rows aiStreamId (ingressBody rt configuredModel body)).text.toList
  stopped : ∀ rows aiStreamId rule, BlockingKeyword rt rows aiStreamId .prompt rule →
    (∃ s, Forwarded rt p (ingressBody rt configuredModel body) s ∧
      aiKeywordMatches rt rule.conditionJson s = true) →
    ∀ answer, (send rt ⟨p, config, auth, some (rows, aiStreamId)⟩ answer
      [buildAiIngressEvent rt configuredModel body] {}).requests = []

/-- The rule that blocks one word. -/
def blockWord (target : Target) (word : String) : AiPolicyRule where
  id := 1
  aiStreamId := 1
  name := "block"
  target := target
  inspectionType := .keyword
  conditionJson := [("keyword", .str word)]
  actionType := .block

theorem keywordOf_blockWord {target : Target} {word : String} (h : word ≠ "") :
    keywordOf rt (blockWord target word).conditionJson = word := by
  have htruthy : truthy (.str word) = true := by simpa [truthy] using h
  simp [keywordOf, blockWord, Runtime.strOrEmpty, getOrNull, htruthy, Sources.TextRuntime.str,
    Dedup.scalarText]

theorem activeRules_blockWord (target : Target) (word : String) :
    activeRules [blockWord target word] 1 target = [blockWord target word] := by
  simp [activeRules, blockWord]

theorem blockingKeyword_blockWord (target : Target) {word : String} (h : Trimmed word.toList) :
    BlockingKeyword rt [blockWord target word] 1 target (blockWord target word) where
  active := by
    rw [activeRules_blockWord]
    exact List.mem_singleton_self _
  keyword := rfl
  blocking := .inr rfl
  trimmed := by
    have hne : word ≠ "" := by
      rintro rfl
      exact h.ne_nil rfl
    rwa [keywordOf_blockWord rt hne]

/-- A blocking rule that is met refuses the request. -/
theorem refused_of_matches {rows : List AiPolicyRule} {aiStreamId : ℤ} {rule : AiPolicyRule}
    {request : Json.Members} (h : BlockingKeyword rt rows aiStreamId .prompt rule)
    (hocc : aiKeywordMatches rt rule.conditionJson (readText request) = true) :
    ∃ e, enforcePromptBeforeProvider rt (some (rows, aiStreamId)) request = .error e := by
  rw [← extractPromptText_eq_readText] at hocc
  obtain ⟨e, he⟩ := enforceInspection_blocked rt h hocc request applyPromptText
  refine ⟨.policy e, ?_⟩
  simp only [enforcePromptBeforeProvider, enforcePromptPolicy, inspectPrompt, he, Except.mapError]

theorem stopped_of_repeats {p : Provider} {config auth body : Json.Members}
    {configuredModel : String} {rows : List AiPolicyRule} {aiStreamId : ℤ} {rule : AiPolicyRule}
    {s : String} (h : BlockingKeyword rt rows aiStreamId .prompt rule)
    (hrepeats : rt.letters.Repeats s (readText (ingressBody rt configuredModel body)))
    (hocc : aiKeywordMatches rt rule.conditionJson s = true)
    (answer : ProviderHttpRequest → Except SendError Json) :
    (send rt ⟨p, config, auth, some (rows, aiStreamId)⟩ answer
      [buildAiIngressEvent rt configuredModel body] {}).requests = [] := by
  have hread : aiKeywordMatches rt rule.conditionJson
      (readText (ingressBody rt configuredModel body)) = true := by
    rw [h.matches_iff] at hocc ⊢
    exact rt.letters.occurs_of_repeats h.trimmed hrepeats hocc
  obtain ⟨e, he⟩ := refused_of_matches rt h hread
  have hrequest := extractProviderRequest_ingress rt configuredModel body
  exact requests_of_refused rt hrequest he p config auth answer

/-- Blocking a word that the text lacks lets the request through. -/
theorem passed_blockWord {word : String} {request : Json.Members}
    (h : aiKeywordMatches rt (blockWord .prompt word).conditionJson (readText request) = false) :
    enforcePromptBeforeProvider rt (some ([blockWord .prompt word], 1)) request = .ok request := by
  have hunmet : ∀ r ∈ activeRules [blockWord .prompt word] 1 .prompt,
      aiRuleMatches rt r (extractPromptText request)
        (rt.findingClasses (extractPromptText request)) = false := by
    intro r hr
    rw [activeRules_blockWord, List.mem_singleton] at hr
    subst hr
    rw [extractPromptText_eq_readText]
    exact h
  have hpassed := enforceInspection_unmet rt hunmet request applyPromptText
  simp only [enforcePromptBeforeProvider, enforcePromptPolicy, inspectPrompt, hpassed,
    Except.mapError]

/-- The rule that blocks a forwarded string itself shows that its lower case is read too. -/
theorem repeats_of_promptInspected {p : Provider} {config auth body : Json.Members}
    {configuredModel : String} {http : ProviderHttpRequest}
    (hbuilt : buildHttpRequest rt p (ingressBody rt configuredModel body) config auth = .ok http)
    (h : PromptInspected rt p config auth configuredModel body) {s : String}
    (hs : Forwarded rt p (ingressBody rt configuredModel body) s) :
    rt.letters.Repeats s (readText (ingressBody rt configuredModel body)) := by
  have hseen := h.seen [] 1 s hs
  rw [inspectPrompt_text] at hseen
  refine ⟨hseen, ?_⟩
  by_cases hblank : stripChars s.toList = []
  · simp [hblank, CaseTable.lowerChars, CaseTable.lowerFrom]
  have htrim : Trimmed (strip s).toList := by
    simpa [strip] using trimmed_stripChars hblank
  have hne : strip s ≠ "" := by
    intro hempty
    exact htrim.ne_nil (by rw [hempty]; rfl)
  have hrule := blockingKeyword_blockWord rt .prompt htrim
  have hword : ∀ text, aiKeywordMatches rt (blockWord .prompt (strip s)).conditionJson text = true ↔
      rt.letters.lowerChars (stripChars s.toList) <:+: rt.letters.lowerChars text.toList := by
    intro text
    rw [hrule.matches_iff, keywordOf_blockWord rt hne, CaseTable.occurs_iff]
    simp [blockWord, ignoreCase, truthy, strip]
  by_contra hmissing
  have hunmet : aiKeywordMatches rt (blockWord .prompt (strip s)).conditionJson
      (readText (ingressBody rt configuredModel body)) = false :=
    Bool.eq_false_iff.mpr fun hmatch => hmissing ((hword _).mp hmatch)
  have hpassed := passed_blockWord rt hunmet
  have hself : aiKeywordMatches rt (blockWord .prompt (strip s)).conditionJson s = true :=
    (hword s).mpr (rt.letters.repeats_self s).2
  have hnone := h.stopped _ 1 _ hrule ⟨s, hs, hself⟩ (fun _ => .error .attribute)
  have hrequest := extractProviderRequest_ingress rt configuredModel body
  have hsent := requests_of_passed rt hrequest hpassed hbuilt (fun _ => .error .attribute)
  rw [hnone] at hsent
  cases hsent

/-- What is forwarded stands in the body that is built, and the inspection of a body that is sent
is complete exactly when the builder forwards nothing unread that is not repeated in what is
read. -/
theorem promptInspected_iff {p : Provider} {config auth body : Json.Members}
    {configuredModel : String} {http : ProviderHttpRequest}
    (hbuilt : buildHttpRequest rt p (ingressBody rt configuredModel body) config auth = .ok http) :
    (∀ s, Forwarded rt p (ingressBody rt configuredModel body) s → AppearsIn http s) ∧
      (PromptInspected rt p config auth configuredModel body ↔
        UnreadRepeated rt p (ingressBody rt configuredModel body)) := by
  refine ⟨fun s hs => appearsIn_of_forwarded rt hbuilt hs, ?_⟩
  rw [unreadRepeated_iff]
  constructor
  · intro h s hs
    exact repeats_of_promptInspected rt hbuilt h hs
  · intro h
    refine ⟨?_, ?_⟩
    · intro rows aiStreamId s hs
      rw [inspectPrompt_text]
      exact (h s hs).1
    · rintro rows aiStreamId rule hrule ⟨s, hs, hocc⟩ answer
      exact stopped_of_repeats rt hrule (h s hs) hocc answer

/-! ### A content in parts -/

/-- A runtime with ASCII letters whose `int` reads integers. -/
def plainRuntime : Runtime where
  letters := asciiCase
  int v := match v with
    | .int i => some i
    | _ => none

def demoAuth : Json.Members := [("api_key", .str "key")]

/-- A body whose one message holds its text in a list of parts. -/
def partsBody : Json.Members :=
  [("model", .str "gpt-4o"), ("messages", .arr [.obj [("role", .str "user"),
    ("content", .arr [.obj [("type", .str "text"), ("text", .str "the launch code")]])]])]

/-- The parts are forwarded and not inspected: the rule that blocks a word of theirs lets the
request out. -/
theorem parts_uninspected :
    validateChatCompletionsBody plainRuntime partsBody = .ok () ∧
      (inspectPrompt plainRuntime [] 1 (ingressBody plainRuntime "gpt-4o" partsBody)).text = "" ∧
      (send plainRuntime
        ⟨.openai, [], demoAuth, some ([blockWord .prompt "launch"], 1)⟩
        (fun _ => .error .attribute)
        [buildAiIngressEvent plainRuntime "gpt-4o" partsBody] {}).requests ≠ [] ∧
      ¬ PromptInspected plainRuntime .openai [] demoAuth "gpt-4o" partsBody := by
  refine ⟨by decide +kernel, by decide +kernel, by decide +kernel, ?_⟩
  intro h
  have hforwarded : Forwarded plainRuntime .openai (ingressBody plainRuntime "gpt-4o" partsBody)
      "the launch code" := by
    refine .inl ⟨[("role", .str "user"),
      ("content", .arr [.obj [("type", .str "text"), ("text", .str "the launch code")]])],
      by decide +kernel, by decide +kernel, "the launch code", by decide +kernel, List.infix_rfl⟩
  have hseen := h.seen [] 1 "the launch code" hforwarded
  exact absurd hseen (by decide +kernel)

/-- A body whose contents are strings. -/
def stringBody : Json.Members :=
  [("messages", .arr [.obj [("role", .str "system"), ("content", .str " be brief ")],
    .obj [("role", .str "user"), ("content", .str "hello")]])]

theorem stringBody_inspected :
    ∃ http, buildHttpRequest plainRuntime .claude (ingressBody plainRuntime "claude" stringBody) []
        demoAuth = .ok http ∧
      PromptInspected plainRuntime .claude [] demoAuth "claude" stringBody := by
  obtain ⟨http, hbuilt⟩ : ∃ http, buildHttpRequest plainRuntime .claude
      (ingressBody plainRuntime "claude" stringBody) [] demoAuth = .ok http := by
    exact ⟨_, rfl⟩
  refine ⟨http, hbuilt, (promptInspected_iff plainRuntime hbuilt).2.mpr ⟨?_, ?_⟩⟩
  · intro message hmem hnot
    have hlist : listOf "messages" (ingressBody plainRuntime "claude" stringBody) =
        [.obj [("role", .str "system"), ("content", .str " be brief ")],
          .obj [("role", .str "user"), ("content", .str "hello")]] := by rfl
    rw [hlist] at hmem
    rcases List.mem_cons.mp hmem with heq | hmem
    · obtain rfl := Json.obj.inj heq
      exact absurd rfl (hnot " be brief ")
    · obtain rfl := Json.obj.inj (List.mem_singleton.mp hmem)
      exact absurd rfl (hnot "hello")
  · intro hp
    cases hp

end AiPolicy
