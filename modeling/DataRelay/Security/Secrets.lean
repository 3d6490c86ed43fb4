import DataRelay.Lib.Dict
import DataRelay.Lib.LetterCase
import DataRelay.Lib.PyRepr

/-! Secret masking of configurations for responses, exports and snapshots: sensitive fields,
header maps and PEM texts, in three passes; and the update that takes masks back. -/
namespace Secrets
open PyText (CaseTable)

/-- `SENSITIVE_FIELD_NAMES`. -/
def sensitiveFieldNames : List String :=
  ["secret_key", "access_key", "password", "basic_password", "token", "bearer_token",
    "api_key_value", "client_secret", "oauth_client_secret", "oauth2_client_secret",
    "login_password", "refresh_token", "access_token", "id_token", "api_key", "secret",
    "private_key", "tls_key_pem", "certificate_pem"]

def sensitiveHeaderNames : List String := ["authorization", "cookie", "set-cookie", "x-api-key"]

/-- `_MASK`. -/
def maskText : String := "********"

/-- `text.replace(a, b)` of one character by another. -/
def replaceChar (a b : Char) (s : String) : String :=
  String.ofList (s.toList.map fun c => if c = a then b else c)

/-- `item in (None, "")`. -/
def isUnset (v : Json) : Bool := decide (v = .null) || decide (v = .str "")

-- The letter case of a name, and the characters beyond ASCII that `repr` prints.
variable (T : CaseTable) (printable : Char → Bool)

def normalizeSecretFieldName (name : String) : String := replaceChar '-' '_' (T.lowerText name)

def isSensitiveFieldName (name : String) : Bool :=
  decide (normalizeSecretFieldName T name ∈ sensitiveFieldNames)

/-- The names `mask_http_headers` masks. -/
def isSensitiveHeader (name : String) : Bool :=
  let lk := T.lowerText name
  let lowKey := replaceChar '_' '-' lk
  decide (lk ∈ sensitiveHeaderNames) || PyText.contains "secret" lk ||
    decide ("-token".toList <:+ lowKey.toList) || PyText.contains "token" lk ||
    PyText.contains "password" lk || PyText.contains "api-key" lowKey ||
    decide ("apikey".toList <:+ lowKey.toList) || PyText.contains "api_key" lk

/-- One header of `mask_http_headers`. -/
def maskHttpHeader (name value : String) : String :=
  if isSensitiveHeader T name && decide (value ≠ "") then maskText else value

/-- `"" if v is None else str(v)`. -/
def headerText (v : Json) : String := if v = .null then "" else PyRepr.text printable v

/-- One header of `mask_headers_map`. -/
def maskHeader (maskAllValues : Bool) (name value : String) : String :=
  if maskAllValues then if PyText.strip value = "" then value else maskText
  else maskHttpHeader T name value

def maskHeadersMap (maskAllValues : Bool) (headers : Json.Members) : Json.Members :=
  headers.map fun m => (m.1, .str (maskHeader T maskAllValues m.1 (headerText printable m.2)))

mutual
def maskSecrets : Json → Json
  | .obj members => .obj (maskSecretMembers members)
  | .arr items => .arr (maskSecretItems items)
  | v => v

def maskSecretItems : List Json → List Json
  | [] => []
  | v :: vs => maskSecrets v :: maskSecretItems vs

def maskSecretMembers : Json.Members → Json.Members
  | [] => []
  | (k, v) :: ms =>
    (k, if isSensitiveFieldName T k then if isUnset v then v else .str maskText
      else maskSecrets v) :: maskSecretMembers ms
end

/-- A text with a PEM block in it. -/
def hasPem (s : String) : Bool := PyText.contains "-----BEGIN" s && PyText.contains "-----END" s

def redactText (s : String) : String := if hasPem s then maskText else s

mutual
def redactPemLiterals : Json → Json
  | .str s => .str (redactText s)
  | .obj members => .obj (redactMembers members)
  | .arr items => .arr (redactItems items)
  | v => v

def redactItems : List Json → List Json
  | [] => []
  | v :: vs => redactPemLiterals v :: redactItems vs

def redactMembers : Json.Members → Json.Members
  | [] => []
  | (k, v) :: ms => (k, redactPemLiterals v) :: redactMembers ms
end

def isHeadersKey (k : String) : Bool := decide (T.lowerText k = "headers")

/-- A header map masked, if the value is an object. -/
def maskHeaders (maskAllValues : Bool) : Json → Option Json
  | .obj headers => some (.obj (maskHeadersMap T printable maskAllValues headers))
  | _ => none

mutual
/-- `_mask_nested_headers`. -/
def maskNestedHeaders (maskAllHeaderValues : Bool) : Json → Json
  | .obj members => .obj (maskNestedMembers maskAllHeaderValues members)
  | .arr items => .arr (maskNestedItems maskAllHeaderValues items)
  | v => v

def maskNestedItems (maskAllHeaderValues : Bool) : List Json → List Json
  | [] => []
  | v :: vs => maskNestedHeaders maskAllHeaderValues v :: maskNestedItems maskAllHeaderValues vs

def maskNestedMembers (maskAllHeaderValues : Bool) : Json.Members → Json.Members
  | [] => []
  | (k, v) :: ms =>
    (k, if isHeadersKey T k then
        (maskHeaders T printable maskAllHeaderValues v).getD
          (maskNestedHeaders maskAllHeaderValues v)
      else maskNestedHeaders maskAllHeaderValues v) :: maskNestedMembers maskAllHeaderValues ms
end

def maskConfigPayload (maskAllHeaderValues : Bool) (v : Json) : Json :=
  redactPemLiterals (maskNestedHeaders T printable maskAllHeaderValues (maskSecrets T v))

/-! ### Updates with masks in them -/

/-- A text that is not empty. -/
def isText : Json → Bool
  | .str s => decide (s ≠ "")
  | _ => false

def isObject : Json → Bool
  | .obj _ => true
  | _ => false

def listOf : Json → List Json
  | .arr items => items
  | _ => []

def membersOf : Json → Json.Members
  | .obj members => members
  | _ => []

mutual
/-- `preserve_masked_secrets`: a mask keeps what was stored. -/
def preserveMaskedSecrets : (incoming existing : Json) → Json
  | .obj members, existing => .obj (preserveMembers members (membersOf existing))
  | .arr items, existing => .arr (preserveItems items (listOf existing))
  | v, _ => v

def preserveItems : (incoming existing : List Json) → List Json
  | [], _ => []
  | v :: vs, existing =>
    preserveMaskedSecrets v (existing.headD .null) :: preserveItems vs existing.tail

def preserveMembers : (incoming existing : Json.Members) → Json.Members
  | [], _ => []
  | (k, v) :: ms, existing =>
    let prior := (Dict.get? k existing).getD .null
    (k, if isSensitiveFieldName T k ∧ v = .str maskText ∧ ¬ isUnset prior then prior
      else if v = .str maskText ∧ isText prior then prior
      else preserveMaskedSecrets v prior) :: preserveMembers ms existing
end

end Secrets
