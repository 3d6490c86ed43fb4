import DataRelay.Formatters.MessagePrefix
import DataRelay.Lib.Framing
import DataRelay.Lib.Raising

/-! An event as an RFC 5424 message with a JSON text in UTF-8, framed by its length for TLS. -/
namespace Rfc5425
open Delivery

/-- `_HEADER_MAX`. -/
def headerMax : List (String × ℕ) :=
  [("hostname", 255), ("app_name", 48), ("procid", 128), ("msgid", 32)]

def maxFrame : ℕ := 1024 * 1024

def utf8Bom : List UInt8 := [0xef, 0xbb, 0xbf]

def facilityMap : List (String × ℤ) := [("local0", 16)]
def severityMap : List (String × ℤ) := [("info", 6)]

/-- What the library makes of a value and of a time: `str` of a value that is no string, and
`datetime.fromisoformat` with the text in UTC, if the time has a zone. -/
structure Runtime where
  reprText : Json → String := Json.compactText
  isoUtc : String → Option (Option String) := fun iso => some (some iso)

/-- `str(value)`. -/
def Runtime.str (rt : Runtime) : Json → String
  | .str s => s
  | v => rt.reprText v

variable (rt : Runtime)

/-- `_head_ascii`. -/
def headAscii (value : Json) (field : String) : Except String String :=
  let text := rt.str value
  let maxChars := (Dict.get? field headerMax).getD 0
  if ¬ (1 ≤ text.length ∧ text.length ≤ maxChars) then
    .error (field ++ " must be 1.." ++ toString maxChars ++ " characters")
  else if text.toList.any fun c => !(33 ≤ c.toNat && c.toNat ≤ 126) then
    .error (field ++ " must contain only printable ASCII 33..126")
  else .ok text

/-- A facility or severity, by name or by number. -/
def level (names : List (String × ℤ)) (bound : ℤ) (raw : Json) : Option ℕ :=
  match raw with
  | .str name => (Dict.get? (PyText.lower name) names).bind fun i =>
    if 0 ≤ i ∧ i ≤ bound then some i.toNat else none
  | .int i => if 0 ≤ i ∧ i ≤ bound then some i.toNat else none
  | _ => none

/-- `_priority`. -/
def priority (config : Json.Members) : Except String ℕ :=
  match level facilityMap 23 ((Dict.get? "facility" config).getD (.str "local0")),
    level severityMap 7 ((Dict.get? "severity" config).getD (.str "info")) with
  | none, _ => .error "RFC 5424 facility must be in 0..23 or a supported name"
  | some _, none => .error "RFC 5424 severity must be in 0..7 or a supported name"
  | some facility, some severity => .ok (facility * 8 + severity)

/-- `_timestamp`. -/
def timestamp (utcNow : String) (iso : Option String) : Except String String :=
  match iso with
  | none => .ok utcNow
  | some iso =>
    if iso = "-" then .ok "-"
    else
      match rt.isoUtc iso with
      | none => .error "RFC 5424 timestamp is not valid ISO 8601"
      | some none => .error "RFC 5424 timestamp must specify a timezone"
      | some (some utc) => .ok utc

/-! ### JSON in UTF-8 -/

/-- A character of a JSON string where only what JSON forbids is escaped. -/
def escapeChar (c : Char) : List Char :=
  if 32 ≤ c.toNat ∧ c ≠ '"' ∧ c ≠ '\\' then [c] else Json.escapeChar c

def quoted (s : String) : String := "\"" ++ String.ofList (s.toList.flatMap escapeChar) ++ "\""

mutual
/-- `json.dumps(value, ensure_ascii=False, separators=(",", ":"), allow_nan=False)`. -/
def jsonText : Json → Option String
  | .null => some "null"
  | .bool b => some (if b then "true" else "false")
  | .int i => some (toString i)
  | .float repr => if repr ∈ ["nan", "inf", "-inf"] then none else some repr
  | .str s => some (quoted s)
  | .arr items => (itemTexts items).map fun texts => "[" ++ ",".intercalate texts ++ "]"
  | .obj members => (memberTexts members).map fun texts =>
    "\x7b" ++ ",".intercalate texts ++ "\x7d"

def itemTexts : List Json → Option (List String)
  | [] => some []
  | v :: vs => (jsonText v).bind fun text => (itemTexts vs).map (text :: ·)

def memberTexts : Json.Members → Option (List String)
  | [] => some []
  | (k, v) :: ms => (jsonText v).bind fun text =>
    (memberTexts ms).map ((quoted k ++ ":" ++ text) :: ·)
end

/-! ### Messages and frames -/

/-- `formatter_config`, with the members of its `syslog` over its own. -/
def options (formatterConfig : Json.Members) : Except String Json.Members :=
  let nested := Runner.getOrNull "syslog" formatterConfig
  if Runner.truthy nested then
    match nested with
    | .obj members => .ok (members.foldl (fun out m => Dict.set m.1 m.2 out) formatterConfig)
    | _ => .error "syslog formatter configuration must be a dictionary"
  else .ok formatterConfig

/-- The header of a message, up to its text. -/
def rfc5424Header (utcNow : String) (formatterConfig : Json.Members)
    (timestampIso : Option String) : Except String String := do
  let options ← options formatterConfig
  let option (name default : String) : Json := (Dict.get? name options).getD (.str default)
  let pri ← priority options
  let hostname ← headAscii rt (option "hostname" "gdc") "hostname"
  let appName ← headAscii rt (option "app_name" "generic-connector") "app_name"
  let procid ← headAscii rt (option "procid" "-") "procid"
  let msgid ← headAscii rt (option "tag" "event") "msgid"
  let stamp ← timestamp rt utcNow timestampIso
  .ok ("<" ++ toString pri ++ ">1 " ++ stamp ++ " " ++ hostname ++ " " ++ appName ++ " " ++
    procid ++ " " ++ msgid ++ " - ")

def rfc5424Json (utcNow : String) (event : Event) (formatterConfig : Json.Members)
    (timestampIso : Option String) : Except String (List UInt8) :=
  (rfc5424Header rt utcNow formatterConfig timestampIso).bind fun header =>
    match jsonText (.obj event) with
    | none => .error "Out of range float values are not JSON compliant"
    | some msg =>
      let wire := Framing.encodeUtf8 header ++ utf8Bom ++ Framing.encodeUtf8 msg
      if maxFrame < wire.length then
        .error "RFC 5425 Syslog message exceeds standard-mode size limit"
      else .ok wire

def rfc5425Frame (message : List UInt8) : Except String (List UInt8) :=
  if 0 < message.length ∧ message.length ≤ maxFrame then .ok (Framing.octetCounted message)
  else .error "Invalid RFC 5425 message bytes or size"

variable {rt}

/-- A message is framed: it is neither empty nor too long. -/
theorem rfc5425Frame_of_rfc5424Json {utcNow : String} {event : Event}
    {formatterConfig : Json.Members} {timestampIso : Option String} {message : List UInt8}
    (h : rfc5424Json rt utcNow event formatterConfig timestampIso = .ok message) :
    message ≠ [] ∧ rfc5425Frame message = .ok (Framing.octetCounted message) := by
  have hbounds : 0 < message.length ∧ message.length ≤ maxFrame := by
    obtain ⟨header, -, h⟩ := Raising.bind_eq_ok h
    cases hmsg : jsonText (.obj event) with
    | none => simp [hmsg] at h
    | some msg =>
      simp only [hmsg] at h
      split_ifs at h with hlong
      obtain rfl := Except.ok.inj h
      constructor
      · simp [utf8Bom]
      · omega
  refine ⟨List.ne_nil_of_length_pos hbounds.1, ?_⟩
  rw [rfc5425Frame, if_pos hbounds]

end Rfc5425
