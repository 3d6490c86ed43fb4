import DataRelay.Lib.JsonText
import DataRelay.Dedup.Queue
import DataRelay.Runner.StreamRun

/-! Delivery to a webhook: the events are cut into requests, each with its own retries and all
under the idempotency key of the call. -/
namespace Webhook
open Delivery

inductive PayloadMode where
  | singleEventObject
  | batchJsonArray
  deriving DecidableEq, Repr

structure WebhookConfig where
  url : String
  headers : List (String × String) := []
  retryCount : ℤ := 2
  batchSize : Option ℤ := none
  payloadMode : Option String := none
  formatterConfig : Json := .null
  deriving DecidableEq

/-- The context a prefix template is resolved in; every member may be missing. -/
structure MessagePrefixResolveContext where
  streamName : Option String := none
  streamId : Option ℤ := none
  destinationName : Option String := none
  destinationType : Option String := none
  routeId : Option ℤ := none
  timestampIso : Option String := none
  deriving DecidableEq, Repr

/-- The arguments of `WebhookSender.send`. -/
structure WebhookCall where
  events : List Event
  config : WebhookConfig
  formatterOverride : Option Json.Members := none
  prefixContext : MessagePrefixResolveContext := {}
  idempotencyKey : Option String := none
  deriving DecidableEq

inductive WebhookError where
  | invalidPayloadMode (raw : String)
  | destinationSend (message : String) (httpStatus : Option ℤ)
  deriving DecidableEq, Repr

/-- What becomes of a request: the sink takes it, answers with an error status, or gives no
answer, having taken it or not. -/
inductive PostOutcome where
  | accepted
  | rejected (status : ℤ) (text : String)
  | lost (taken : Bool) (text : String)
  deriving DecidableEq, Repr

inductive PostBody where
  | text (content : String)
  | json (value : Json)
  deriving DecidableEq

structure PostRequest where
  url : String
  headers : List (String × String)
  body : PostBody
  events : List Event
  deriving DecidableEq

structure Post where
  request : PostRequest
  outcome : PostOutcome
  deriving DecidableEq

/-- What one call meets: the answers to its requests in order, the clock when the `j`-th event
of the `k`-th request is formatted, and the text of a nested value in a prefix. -/
structure WebhookWorld where
  answers : ℕ → PostOutcome := fun _ => .accepted
  clock : ℕ → ℕ → String := fun _ _ => "2026-01-01T00:00:00Z"
  reprText : Json → String := Json.compactText

/-- A template is text with placeholders. -/
inductive Piece where
  | lit (c : Char)
  | hole (key : String)
  deriving DecidableEq, Repr

def openBrace : Char := '\x7b'
def closeBrace : Char := '\x7d'

/-- The pieces of a template, left to right; a placeholder holds no closing brace and is not
empty. `fuel` bounds the characters left. -/
def templatePieces : (fuel : ℕ) → List Char → List Piece
  | 0, _ => []
  | _ + 1, [] => []
  | fuel + 1, c :: cs =>
    if c = openBrace ∧ cs.head? = some openBrace then
      let key := cs.tail.takeWhile (· ≠ closeBrace)
      let rest := cs.tail.dropWhile (· ≠ closeBrace)
      if key ≠ [] ∧ rest.take 2 = [closeBrace, closeBrace] then
        .hole (PyText.strip (String.ofList key)) :: templatePieces fuel (rest.drop 2)
      else .lit c :: templatePieces fuel cs
    else .lit c :: templatePieces fuel cs

def pieces (template : String) : List Piece :=
  templatePieces template.toList.length template.toList

namespace MessagePrefixResolveContext

/-- `timestamp_iso`, unless it is missing or blank. -/
def timestamp (ctx : MessagePrefixResolveContext) : Option String :=
  ctx.timestampIso.bind fun t => if PyText.strip t = "" then none else some (PyText.strip t)

/-- `_event_field`. -/
def eventField (reprText : Json → String) (event : Event) (field : String) : String :=
  match Dict.get? field event with
  | none | some .null => ""
  | some v => (Dedup.scalarText v).getD (reprText v)

def lookup (ctx : MessagePrefixResolveContext) (reprText : Json → String) (now : String)
    (event : Event) (key : String) : String :=
  if key = "timestamp" then ctx.timestamp.getD now
  else if key = "stream.name" then ctx.streamName.getD ""
  else if key = "stream.id" then (ctx.streamId.map toString).getD ""
  else if key = "destination.name" then ctx.destinationName.getD ""
  else if key = "destination.type" then ctx.destinationType.getD ""
  else if key = "route.id" then (ctx.routeId.map toString).getD ""
  else if "event.".toList <+: key.toList then
    let field := PyText.strip (String.ofList (key.toList.drop 6))
    if field = "" then "" else eventField reprText event field
  else ""

def fill (ctx : MessagePrefixResolveContext) (reprText : Json → String) (now : String)
    (event : Event) : Piece → List Char
  | .lit c => [c]
  | .hole key => (ctx.lookup reprText now event key).toList

/-- `resolve_message_prefix_template(...).rstrip()`. -/
def resolvePrefix (ctx : MessagePrefixResolveContext) (reprText : Json → String) (now : String)
    (template : String) (event : Event) : List Char :=
  ((pieces template).flatMap (ctx.fill reprText now event)).rdropWhile PyText.isSpace

end MessagePrefixResolveContext

def defaultMessagePrefixTemplate : String := "<134> gdc generic-connector event:"

namespace WebhookCall

variable (c : WebhookCall)

def routeFormatter : Json.Members := c.formatterOverride.getD []

/-- `effective_message_prefix_enabled` for `WEBHOOK_POST`. -/
def prefixOn : Bool :=
  match Dict.get? "message_prefix_enabled" c.routeFormatter with
  | some v => Runner.truthy v
  | none => false

/-- `effective_message_prefix_template`. -/
def prefixTemplate : String :=
  match Dict.get? "message_prefix_template" c.routeFormatter with
  | some (.str raw) => if PyText.strip raw = "" then defaultMessagePrefixTemplate else PyText.strip raw
  | _ => defaultMessagePrefixTemplate

/-- `resolve_formatter_config` does not raise. -/
def formatterConfigOk : Bool :=
  !(c.routeFormatter.filter fun m =>
      m.1 ≠ "message_prefix_enabled" ∧ m.1 ≠ "message_prefix_template").isEmpty ||
    match c.config.formatterConfig with
    | .null | .obj _ => true
    | _ => false

def resolveWebhookPayloadMode : Except WebhookError PayloadMode :=
  match c.config.payloadMode with
  | none => .ok .singleEventObject
  | some raw =>
    let mode := PyText.strip raw
    if mode = "" then .ok .singleEventObject
    else if mode = "SINGLE_EVENT_OBJECT" then .ok .singleEventObject
    else if mode = "BATCH_JSON_ARRAY" then .ok .batchJsonArray
    else .error (.invalidPayloadMode raw)

def headers : List (String × String) :=
  match c.idempotencyKey with
  | some key =>
    if key = "" then c.config.headers else Dict.set "Idempotency-Key" key c.config.headers
  | none => c.config.headers

/-- `max(1, int(config.get("batch_size", len(events) or 1)))`. -/
def batchSize : ℕ := (max 1 (c.config.batchSize.getD (max 1 c.events.length))).toNat

/-- `events[i : i + batch_size] for i in range(0, len(events), batch_size)`. -/
def slices : List (List Event) :=
  (List.range ((c.events.length + c.batchSize - 1) / c.batchSize)).map fun k =>
    (c.events.drop (k * c.batchSize)).take c.batchSize

def batches (mode : PayloadMode) : List (List Event) :=
  if c.prefixOn then c.slices
  else if mode = .singleEventObject then c.events.map ([·]) else c.slices

def line (w : WebhookWorld) (now : String) (event : Event) : String :=
  String.ofList (c.prefixContext.resolvePrefix w.reprText now c.prefixTemplate event) ++ " " ++
    Json.compactText (.obj event)

def request (mode : PayloadMode) (w : WebhookWorld) (k : ℕ) (batch : List Event) : PostRequest :=
  let url := PyText.strip c.config.url
  if c.prefixOn then
    { url
      headers := Dict.set "Content-Type" "text/plain; charset=utf-8" c.headers
      body := .text ("\n".intercalate (batch.mapIdx fun j event => c.line w (w.clock k j) event))
      events := batch }
  else if mode = .singleEventObject then
    { url, headers := c.headers, body := .json (.obj (batch.headD [])), events := batch }
  else { url, headers := c.headers, body := .json (.arr (batch.map .obj)), events := batch }

def requests (mode : PayloadMode) (w : WebhookWorld) : List PostRequest :=
  (c.batches mode).mapIdx (c.request mode w)

end WebhookCall

def postError : PostOutcome → Option WebhookError
  | .accepted => none
  | .rejected status text =>
    some (.destinationSend ("Webhook send failed after retries: " ++ text) (some status))
  | .lost _ text => some (.destinationSend ("Webhook send failed after retries: " ++ text) none)

/-- The attempts of one request: `answers n` meets the next one. -/
def postAttempts (answers : ℕ → PostOutcome) (request : PostRequest) :
    (attempts n : ℕ) → List Post × Option WebhookError
  | 0, _ => ([], none)
  | attempts + 1, n =>
    let post : Post := ⟨request, answers n⟩
    match postError (answers n) with
    | none => ([post], none)
    | some error =>
      if attempts = 0 then ([post], some error)
      else
        let later := postAttempts answers request attempts (n + 1)
        (post :: later.1, later.2)

def postRequests (answers : ℕ → PostOutcome) (attempts : ℕ) :
    List PostRequest → (n : ℕ) → List Post × Option WebhookError
  | [], _ => ([], none)
  | request :: rest, n =>
    let first := postAttempts answers request attempts n
    match first.2 with
    | some error => (first.1, some error)
    | none =>
      let later := postRequests answers attempts rest (n + first.1.length)
      (first.1 ++ later.1, later.2)

/-- `WebhookSender.send`: the requests issued, and the exception it raises. -/
def WebhookCall.send (c : WebhookCall) (w : WebhookWorld) : List Post × Option WebhookError :=
  if c.events.isEmpty then ([], none)
  else if !c.formatterConfigOk then
    ([], some (.destinationSend "destination config formatter_config must be an object" none))
  else if PyText.strip c.config.url = "" then
    ([], some (.destinationSend "Webhook destination requires url" none))
  else
    match c.resolveWebhookPayloadMode with
    | .error error => ([], some error)
    | .ok mode => postRequests w.answers (c.config.retryCount + 1).toNat (c.requests mode w) 0

end Webhook
