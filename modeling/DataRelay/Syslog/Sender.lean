import DataRelay.Formatters.Rfc5425

/-! Delivery to a syslog collector over UDP, TCP or TLS: the events become lines, or RFC 5424
messages framed by their length, and are written one by one. -/
namespace Syslog
open Delivery MessagePrefix
open Webhook (MessagePrefixResolveContext)

inductive SyslogProtocol where
  | udp
  | tcp
  | tls
  deriving DecidableEq, Repr

inductive SyslogWireMode where
  | legacy
  | rfc5425
  deriving DecidableEq, Repr

inductive SyslogError where
  | destinationSend (message : String)
  /-- What reading the port or the timeouts of the configuration raises. -/
  | configValue (message : String)
  deriving DecidableEq, Repr

/-- The arguments of `SyslogSender.send`. -/
structure SyslogCall where
  events : List Event
  config : Json.Members
  formatterOverride : Option Json.Members := none
  destinationType : Option String := none
  prefixContext : MessagePrefixResolveContext := {}

/-- What one call meets: the runtime, the clock when the `j`-th event is formatted, as a prefix
and as an RFC 5424 header have it, what raises before the first write, and what the `k`-th write
raises. -/
structure SyslogWorld where
  runtime : Rfc5425.Runtime := {}
  clock : ℕ → String := fun _ => "2026-01-01T00:00:00Z"
  utcNow : ℕ → String := fun _ => "2026-01-01T00:00:00.000001Z"
  setup : Option SyslogError := none
  writeFault : ℕ → Option String := fun _ => none

def formatterTopKeys : List String :=
  ["message_format", "syslog_wire_mode", "syslog", "facility", "severity", "hostname", "app_name",
    "tag"]

/-- `route_formatter_without_prefix_keys`. -/
def withoutPrefixKeys (routeFormatter : Json.Members) : Json.Members :=
  routeFormatter.filter fun m => m.1 ≠ "message_prefix_enabled" ∧ m.1 ≠ "message_prefix_template"

def resolveFormatterConfig (destinationConfig : Json.Members)
    (routeFormatterConfig : Option Json.Members) : Except String Json.Members :=
  let effectiveRoute := withoutPrefixKeys (routeFormatterConfig.getD [])
  if ¬ effectiveRoute.isEmpty then .ok effectiveRoute
  else
    match Runner.getOrNull "formatter_config" destinationConfig with
    | .null => .ok (formatterTopKeys.filterMap fun k =>
        (Dict.get? k destinationConfig).map fun v => (k, v))
    | .obj explicit => .ok explicit
    | _ => .error "destination config formatter_config must be an object"

def resolveSyslogProtocol (config : Json.Members) (destinationType : Option String) :
    SyslogProtocol :=
  let dt := PyText.upper (destinationType.getD "")
  if dt = "SYSLOG_TCP" then .tcp
  else if dt = "SYSLOG_UDP" then .udp
  else if dt = "SYSLOG_TLS" then .tls
  else
    match Dict.get? "protocol" config with
    | some (.str raw) =>
      let p := PyText.lower (PyText.strip raw)
      if p = "tcp" then .tcp else if p = "tls" then .tls else .udp
    | _ => .udp

/-- `sendall` of one text after the other; the write that raises is the last. -/
def sendAll (fault : ℕ → Option String) (label : String) : ℕ → List (List UInt8) →
    List (List UInt8) × Option SyslogError
  | _, [] => ([], none)
  | k, payload :: payloads =>
    match fault k with
    | some text => ([], some (.destinationSend (label ++ text)))
    | none =>
      let later := sendAll fault label (k + 1) payloads
      (payload :: later.1, later.2)

namespace SyslogCall

variable (w : SyslogWorld) (c : SyslogCall)

def protocol : SyslogProtocol := resolveSyslogProtocol c.config c.destinationType

/-- `str(destination_type or "").strip() or "SYSLOG_UDP"`. -/
def dtForPrefix : String :=
  let dt := PyText.strip (c.destinationType.getD "")
  if dt = "" then "SYSLOG_UDP" else dt

def wireMode (formatterConfig : Json.Members) : Except String SyslogWireMode :=
  let raw := (Dict.get? "syslog_wire_mode" formatterConfig).getD (.str "legacy")
  let mode := PyText.lower (PyText.strip (w.runtime.str raw))
  if mode = "legacy" then .ok .legacy
  else if mode = "rfc5425" then .ok .rfc5425
  else .error ("Unsupported Syslog wire mode: " ++ mode)

/-- The formatter settings and the wire mode of the call. -/
def profile : Except String (Json.Members × SyslogWireMode) := do
  let formatterConfig ← resolveFormatterConfig c.config c.formatterOverride
  let messageFormat := (Dict.get? "message_format" formatterConfig).getD (.str "json")
  if messageFormat ≠ .str "json" then
    .error ("Unsupported message_format for syslog delivery: " ++ w.runtime.str messageFormat)
  else
    let mode ← wireMode w formatterConfig
    .ok (formatterConfig, mode)

/-- The route asks for a message prefix. -/
def asksPrefix : Bool :=
  let override := c.formatterOverride.getD []
  decide (Dict.get? "message_prefix_enabled" override = some (.bool true)) ||
    (Dict.get? "message_prefix_template" override).isSome

/-- What `rfc5424_json` makes of the events. -/
def rfcMessages (formatterConfig : Json.Members) : List (Except String (List UInt8)) :=
  c.events.mapIdx fun j event =>
    Rfc5425.rfc5424Json w.runtime (w.utcNow j) event formatterConfig c.prefixContext.timestampIso

def rfcPayloads (formatterConfig : Json.Members) : Except String (List (List UInt8)) :=
  if c.protocol ≠ .tls then .error "RFC 5425 mode requires SYSLOG_TLS transport"
  else if c.asksPrefix then
    .error "RFC 5425 mode cannot combine with legacy message_prefix templates"
  else (c.rfcMessages w formatterConfig).mapM id

def lines : List String :=
  formatDeliveryLinesSyslog w.runtime.reprText w.clock c.events (c.formatterOverride.getD [])
    c.dtForPrefix c.prefixContext

def legacyPayloads : List (List UInt8) :=
  (c.lines w).filterMap fun line =>
    if PyText.strip line = "" then none else some (Framing.encodeUtf8 line)

/-- Writing the payloads, unless the connection cannot be had. -/
def transmit (label : String) (payloads : List (List UInt8)) :
    List (List UInt8) × Option SyslogError :=
  match w.setup with
  | some error => ([], some error)
  | none => sendAll w.writeFault label 0 payloads

/-- `SyslogSender.send`: what is written, write by write, and the exception it raises. -/
def send : List (List UInt8) × Option SyslogError :=
  if c.events.isEmpty then ([], none)
  else
    match c.profile w with
    | .error message => ([], some (.destinationSend message))
    | .ok (formatterConfig, .rfc5425) =>
      match c.rfcPayloads w formatterConfig with
      | .error message => ([], some (.destinationSend message))
      | .ok messages =>
        match messages.mapM Rfc5425.rfc5425Frame with
        | .error message => ([], some (.destinationSend message))
        | .ok frames => transmit w "Syslog TLS send failed: " frames
    | .ok (_, .legacy) =>
      let payloads := c.legacyPayloads w
      if payloads.isEmpty then
        ([], some (.destinationSend "Syslog send produced no non-empty payloads"))
      else
        match c.protocol with
        | .udp => transmit w "Syslog send failed: " payloads
        | .tcp => transmit w "Syslog send failed: " (payloads.map (· ++ [10]))
        | .tls => transmit w "Syslog TLS send failed: " (payloads.map (· ++ [10]))

end SyslogCall

end Syslog
