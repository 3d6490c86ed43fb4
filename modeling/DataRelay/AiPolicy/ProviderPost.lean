import DataRelay.AiPolicy.Enforcement

/-! The way of a chat request through the AI proxy: what the receiver accepts, the HTTP body
each provider's adapter builds, the answer it reads from the provider's payload, and the two
policy checks the destination adapter makes around the call. -/
namespace AiPolicy
open Runner PyText

variable (rt : Runtime)

/-! ### The receiver -/

inductive ReceiverError where
  | streamingNotSupported (message : String)
  | invalidPayload (message : String)
  deriving DecidableEq, Repr

def validateMessage (idx : ℕ) : Json → Except ReceiverError Unit
  | .obj message =>
    if strip (rt.strOrEmpty (getOrNull "role" message)) = "" then
      .error (.invalidPayload ("messages[" ++ toString idx ++ "].role is required"))
    else if Dict.has "content" message then .ok ()
    else .error (.invalidPayload ("messages[" ++ toString idx ++ "].content is required"))
  | _ => .error (.invalidPayload ("messages[" ++ toString idx ++ "] must be an object"))

def validateMessages (idx : ℕ) : List Json → Except ReceiverError Unit
  | [] => .ok ()
  | m :: ms => do
    validateMessage rt idx m
    validateMessages (idx + 1) ms

def validateTemperature (temperature : Json) : Except ReceiverError Unit :=
  if temperature = .null then .ok ()
  else
    match rt.float temperature with
    | none => .error (.invalidPayload "temperature must be a number")
    | some value =>
      if value.belowZero || value.aboveTwo then
        .error (.invalidPayload "temperature must be between 0 and 2")
      else .ok ()

/-- `_validate_chat_completions_body`. -/
def validateChatCompletionsBody (body : Json.Members) : Except ReceiverError Unit :=
  if Dict.get? "stream" body = some (.bool true) then
    .error (.streamingNotSupported "stream: true is not supported in M21")
  else
    match Dict.get? "messages" body with
    | some (.arr (m :: ms)) => do
      validateMessages rt 0 (m :: ms)
      validateTemperature rt (getOrNull "temperature" body)
    | _ => .error (.invalidPayload "messages must be a non-empty array")

/-- The request body of `build_ai_ingress_event`. -/
def ingressBody (configuredModel : String) (body : Json.Members) : Json.Members :=
  Dict.set "stream" (.bool false)
    (if strip (rt.strOrEmpty (getOrNull "model" body)) = "" then
      Dict.set "model" (.str configuredModel) body else body)

/-- `build_ai_ingress_event`, as far as the destination adapter reads it. -/
def buildAiIngressEvent (configuredModel : String) (body : Json.Members) : Json.Members :=
  [("ai", .obj [("body", .obj (ingressBody rt configuredModel body))])]

/-! ### The adapters' requests -/

inductive Provider where
  | openai
  | claude
  | gemini
  deriving DecidableEq, Repr

inductive SendError where
  | missingRequest
  | policy (error : AiPolicyEnforcementError)
  | value (message : String)
  | conversion
  | attribute
  | provider (message : String) (httpStatus : Option ℕ)
  deriving DecidableEq

structure ProviderHttpRequest where
  method : String := "POST"
  url : String
  headers : List (String × String)
  jsonBody : Json.Members
  deriving DecidableEq

def endsWith (suffix s : String) : Bool := decide (suffix.toList <:+ s.toList)

/-- `str(endpoint_url or "").strip().rstrip("/")`. -/
def baseUrl (config : Json.Members) : String :=
  String.ofList ((strip (rt.strOrEmpty (getOrNull "endpoint_url" config))).toList.rdropWhile
    (· == '/'))

/-- The URL of a call of the version 1 interface. -/
def versionOneUrl (call : String) (config : Json.Members) : String :=
  let base := baseUrl rt config
  if endsWith ("/v1/" ++ call) base then base
  else if endsWith "/v1" base then base ++ "/" ++ call
  else base ++ "/v1/" ++ call

def chatCompletionsUrl (config : Json.Members) : String :=
  versionOneUrl rt "chat/completions" config

def messagesUrl (config : Json.Members) : String := versionOneUrl rt "messages" config

def generateContentUrl (config : Json.Members) (model : String) : String :=
  let base := baseUrl rt config
  if contains ":generateContent" base then base
  else if contains "/v1beta/models/" base then base ++ ":generateContent"
  else base ++ "/v1beta/models/" ++ model ++ ":generateContent"

/-- `_resolve_model`, before the adapter's own last resort. -/
def resolveModel (request config : Json.Members) : Option String :=
  let model := strip (rt.strOrEmpty (getOrNull "model" request))
  let defaultModel := strip (rt.strOrEmpty (getOrNull "default_model" config))
  if truthy (getOrNull "model_override" config) then
    some (strip (rt.strOrEmpty (getOrNull "model_override" config)))
  else if model ≠ "" then some model
  else if defaultModel ≠ "" then some defaultModel
  else none

def apiKey (auth : Json.Members) (missing : String) : Except SendError String :=
  let key := strip (rt.strOrEmpty (getOrNull "api_key" auth))
  if key = "" then .error (.value missing) else .ok key

def openaiHeaders (auth : Json.Members) : Except SendError (List (String × String)) := do
  let key ← apiKey rt auth "OPENAI provider requires auth_json.api_key"
  .ok [("Authorization", "Bearer " ++ key), ("Content-Type", "application/json")]

def anthropicHeaders (auth : Json.Members) : Except SendError (List (String × String)) := do
  let key ← apiKey rt auth "CLAUDE provider requires auth_json.api_key"
  let version := rt.strOrEmpty (getOrNull "anthropic_version" auth)
  .ok [("x-api-key", key),
    ("anthropic-version", if version = "" then "2023-06-01" else version),
    ("Content-Type", "application/json")]

def geminiHeaders (auth : Json.Members) : Except SendError (List (String × String)) := do
  let key ← apiKey rt auth "GEMINI provider requires auth_json.api_key"
  .ok [("x-goog-api-key", key), ("Content-Type", "application/json")]

def openaiModels : List String := ["gpt-4o", "gpt-4.1", "gpt-4.1-mini"]

def openaiRequest (request config auth : Json.Members) :
    Except SendError ProviderHttpRequest :=
  match resolveModel rt request config with
  | none => .error (.value "provider_request.model is required for OPENAI")
  | some model =>
    if model ∈ openaiModels then do
      let headers ← openaiHeaders rt auth
      .ok {
        url := chatCompletionsUrl rt config
        headers := headers
        jsonBody := Dict.set "stream" (.bool false) (Dict.set "model" (.str model) request) }
    else .error (.value ("unsupported OpenAI model: " ++ model))

/-- The list under a key, or no items. -/
def listOf (key : String) (members : Json.Members) : List Json :=
  match Dict.get? key members with
  | some (.arr items) => items
  | _ => []

/-- `str(item.get("role") or "user")`. -/
def roleOf (message : Json.Members) : String :=
  let role := rt.strOrEmpty (getOrNull "role" message)
  if role = "" then "user" else role

/-- `str(item.get("content") or "")`. -/
def contentText (message : Json.Members) : String :=
  rt.strOrEmpty (getOrNull "content" message)

def systemPart : Json → Option String
  | .obj message => if roleOf rt message = "system" then some (contentText rt message) else none
  | _ => none

def anthropicMessage : Json → Option Json
  | .obj message =>
    if roleOf rt message = "system" then none
    else some (.obj [
      ("role", .str (if roleOf rt message = "user" then "user" else "assistant")),
      ("content", .str (contentText rt message))])
  | _ => none

def orPing (ping : Json) (items : List Json) : Json := .arr (if items = [] then [ping] else items)

def intOf (v : Json) : Except SendError ℤ :=
  match rt.int v with
  | some i => .ok i
  | none => .error .conversion

def floatOf (v : Json) : Except SendError Json :=
  match rt.float v with
  | some f => .ok (.float f.repr)
  | none => .error .conversion

/-- `body[key] = convert(value)` unless the value is `None`. -/
def setConverted (key : String) (convert : Json → Except SendError Json) (value : Json)
    (body : Json.Members) : Except SendError Json.Members :=
  if value = .null then .ok body
  else do
    let converted ← convert value
    .ok (Dict.set key converted body)

/-- `_to_anthropic_body`. -/
def toAnthropicBody (request : Json.Members) (model : String) :
    Except SendError Json.Members := do
  let messages := listOf "messages" request
  let systemParts := messages.filterMap (systemPart rt)
  let ping := Json.obj [("role", .str "user"), ("content", .str "ping")]
  let maxTokens ← intOf rt (Sources.orElse (getOrNull "max_tokens" request) (.int 1024))
  let body : Json.Members := [("model", .str model),
    ("messages", orPing ping (messages.filterMap (anthropicMessage rt))),
    ("max_tokens", .int maxTokens)]
  setConverted "temperature" (floatOf rt) (getOrNull "temperature" request)
    (if systemParts = [] then body else Dict.set "system" (.str (joinLines systemParts)) body)

def claudeRequest (request config auth : Json.Members) :
    Except SendError ProviderHttpRequest := do
  let model := (resolveModel rt request config).getD "claude-3-5-sonnet-20241022"
  let headers ← anthropicHeaders rt auth
  let body ← toAnthropicBody rt request model
  .ok { url := messagesUrl rt config, headers := headers, jsonBody := body }

def geminiContent : Json → Option Json
  | .obj message => some (.obj [
      ("role", .str (if roleOf rt message = "assistant" then "model" else "user")),
      ("parts", .arr [.obj [("text", .str (contentText rt message))]])])
  | _ => none

/-- `_to_gemini_body`. -/
def toGeminiBody (request : Json.Members) : Except SendError Json.Members := do
  let contents := (listOf "messages" request).filterMap (geminiContent rt)
  let ping := Json.obj [("role", .str "user"), ("parts", .arr [.obj [("text", .str "ping")]])]
  let body : Json.Members := [("contents", orPing ping contents)]
  let tuned ← setConverted "temperature" (floatOf rt) (getOrNull "temperature" request) []
  let config ← setConverted "maxOutputTokens" (fun v => (intOf rt v).map .int)
    (getOrNull "max_tokens" request) tuned
  .ok (if config = [] then body else Dict.set "generationConfig" (.obj config) body)

def geminiRequest (request config auth : Json.Members) :
    Except SendError ProviderHttpRequest := do
  let headers ← geminiHeaders rt auth
  let model := (resolveModel rt request config).getD "gemini-1.5-flash"
  let body ← toGeminiBody rt request
  .ok { url := generateContentUrl rt config model, headers := headers, jsonBody := body }

/-- `build_http_request` of the provider's adapter. -/
def buildHttpRequest : Provider → Json.Members → Json.Members → Json.Members →
    Except SendError ProviderHttpRequest
  | .openai => openaiRequest rt
  | .claude => claudeRequest rt
  | .gemini => geminiRequest rt

/-! ### The adapters' answers -/

/-- The normalized response, as far as the destination adapter reads it. -/
structure NormalizedResponse where
  content : String
  raw : Json.Members
  deriving DecidableEq

/-- The member of an object; of anything else there is none. -/
def memberOf (key : String) : Option Json → Option Json
  | some (.obj members) => Dict.get? key members
  | _ => none

def firstOf : Option Json → Option Json
  | some (.arr items) => items.head?
  | _ => none

/-- `str(value or "")` of a member that may be missing. -/
def Runtime.textOr (v : Option Json) : String := rt.strOrEmpty (v.getD .null)

def openaiAnswer (payload : Json.Members) : String :=
  let message := memberOf "message" (firstOf (Dict.get? "choices" payload))
  rt.textOr (memberOf "content" message)

def claudeAnswer (payload : Json.Members) : String :=
  rt.textOr (memberOf "text" (firstOf (Dict.get? "content" payload)))

/-- `candidates[0].get("content", {}).get("parts")` raises when `content` is no object. -/
def geminiAnswer (payload : Json.Members) : Except SendError String :=
  match firstOf (Dict.get? "candidates" payload) with
  | some (.obj candidate) =>
    match Dict.get? "content" candidate with
    | none => .ok ""
    | some (.obj content) =>
      .ok (rt.textOr (memberOf "text" (firstOf (Dict.get? "parts" content))))
    | some _ => .error .attribute
  | _ => .ok ""

/-- What `send_request` makes of the payload the provider answered with. -/
def readResponse (p : Provider) (payload : Json) : Except SendError NormalizedResponse :=
  match p, payload with
  | .openai, .obj members => .ok ⟨openaiAnswer rt members, members⟩
  | .openai, _ => .error .attribute
  | .claude, .obj members => .ok ⟨claudeAnswer rt members, members⟩
  | .gemini, .obj members => do
    let content ← geminiAnswer rt members
    .ok ⟨content, members⟩
  | _, _ => .ok ⟨"", []⟩

/-! ### The destination adapter -/

/-- `_extract_provider_request`. -/
def extractProviderRequest (event : Json.Members) : Except SendError Json.Members :=
  match Dict.get? "provider_request" event with
  | some (.obj (m :: ms)) => .ok (m :: ms)
  | _ =>
    match memberOf "body" (Dict.get? "ai" event) with
    | some (.obj (m :: ms)) => .ok (m :: ms)
    | _ => .error .missingRequest

/-- The destination's provider, its configuration, and the rules of its AI stream; without a
policy session or a stream nothing is checked. -/
structure Destination where
  provider : Provider
  config : Json.Members := []
  auth : Json.Members := []
  policy : Option (List AiPolicyRule × ℤ) := none

def enforcePromptBeforeProvider (policy : Option (List AiPolicyRule × ℤ))
    (request : Json.Members) : Except SendError Json.Members :=
  match policy with
  | none => .ok request
  | some (rows, aiStreamId) =>
    (enforcePromptPolicy rt rows aiStreamId request).mapError .policy

def enforceResponseAfterProvider (policy : Option (List AiPolicyRule × ℤ))
    (response : Json.Members) : Except SendError Json.Members :=
  match policy with
  | none => .ok response
  | some (rows, aiStreamId) =>
    (enforceResponsePolicy rt rows aiStreamId response).mapError .policy

/-- What a send leaves behind: the requests that went out, the response in the client's holder,
and the exception. -/
structure Sent where
  requests : List ProviderHttpRequest := []
  holder : Option Json.Members := none
  raised : Option SendError := none
  deriving DecidableEq

/-- The call of the provider and the check of its answer. `answer` is what the attempts of
`send_request` end in. -/
def callProvider (dest : Destination) (answer : ProviderHttpRequest → Except SendError Json)
    (http : ProviderHttpRequest) : Except SendError Json.Members := do
  let payload ← answer http
  let normalized ← readResponse rt dest.provider payload
  enforceResponseAfterProvider rt dest.policy normalized.raw

/-- One event of the loop of `send`. -/
def sendEvent (dest : Destination) (answer : ProviderHttpRequest → Except SendError Json)
    (event : Json.Members) : Sent :=
  let built : Except SendError ProviderHttpRequest := do
    let request ← extractProviderRequest event
    let enforced ← enforcePromptBeforeProvider rt dest.policy request
    buildHttpRequest rt dest.provider enforced dest.config dest.auth
  match built with
  | .error e => { raised := some e }
  | .ok http =>
    match callProvider rt dest answer http with
    | .error e => { requests := [http], raised := some e }
    | .ok response => { requests := [http], holder := some response }

/-- `AiProviderPostDestinationAdapter.send`: the first exception ends the loop. -/
def send (dest : Destination) (answer : ProviderHttpRequest → Except SendError Json) :
    List Json.Members → Sent → Sent
  | [], sent => sent
  | event :: events, sent =>
    let next := sendEvent rt dest answer event
    let after : Sent := {
      requests := sent.requests ++ next.requests
      holder := next.holder.orElse fun _ => sent.holder
      raised := next.raised }
    if after.raised.isSome then after else send dest answer events after

/-- The receiver hands over one event. -/
theorem send_singleton (dest : Destination)
    (answer : ProviderHttpRequest → Except SendError Json) (event : Json.Members) :
    send rt dest answer [event] {} = sendEvent rt dest answer event := by
  cases hholder : (sendEvent rt dest answer event).holder <;>
    simp [send, ← hholder]

end AiPolicy
