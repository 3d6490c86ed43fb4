import DataRelay.Lib.Reordering
import DataRelay.Security.Secrets
import DataRelay.SensitiveDetection.StringSamples

/-! Detection of sensitive fields in a batch: by the last segment of each path, and by the text
found there. -/
namespace SensitiveDetection
open JsonPath Protection PyText Reordering SchemaObservation Secrets

/-! ### Field names -/

def secretTierBSubstrings : List String :=
  ["passwd", "credential", "privatekey", "apikey", "authorization", "set_cookie", "x-api-key"]

def piiExactLeaves : List String :=
  ["email", "e_mail", "mail_address", "phone", "mobile", "msisdn", "ssn", "social_security",
    "national_id", "date_of_birth", "dob", "birth_date", "full_name", "first_name", "last_name",
    "given_name", "family_name", "street_address", "home_address", "postal_code", "zip_code"]

def piiCompoundLeaves : List String := ["user_email", "customer_email", "billing_email"]

def securityMetadataTerms : List String :=
  ["auth_method", "authentication", "permission", "permissions", "role", "roles", "mfa",
    "mfa_enabled", "tls_version", "cipher", "ciphersuite", "security_level", "acl", "scopes",
    "oauth_scope", "grant_type"]

def securityMetadataSessionAllowed : List String := ["session_auth", "session_security"]

def fpStandaloneIdLeaves : List String := ["id", "ids", "uuid", "guid", "uid"]

def fpIdSuffixes : List String := ["_id", "_ids", "_uuid", "_guid"]

def fpMetricSubstrings : List String :=
  ["count", "total", "num", "size", "length", "version", "type", "status", "enabled", "flag"]

def fpTokenAllowedLeaves : List String :=
  ["access_token", "refresh_token", "id_token", "bearer_token", "api_key", "auth_token",
    "oauth_token", "token"]

def fpCookieSecretLeaves : List String := ["cookie", "set_cookie", "cookies"]

def removeChar (c : Char) (s : String) : String := String.ofList (s.toList.filter (· ≠ c))

def endsWith (suffix s : String) : Bool := decide (suffix.toList <:+ s.toList)

inductive Tier where
  | tierA
  | tierB
  deriving DecidableEq, Repr

/-- `apply_false_positive_policy`, with the checks it calls. -/
def applyFalsePositivePolicy (leaf sensitivityClass : String) (tier : Tier) : Bool :=
  if leaf.isEmpty then false
  else if leaf ∈ fpStandaloneIdLeaves then false
  else if tier = .tierB ∧ fpMetricSubstrings.any (contains · leaf) then false
  else if sensitivityClass = "secret" ∧
      ((leaf ∉ fpTokenAllowedLeaves ∧ contains "token" leaf) ∨
        (contains "session" leaf ∧ leaf ∉ securityMetadataSessionAllowed) ∨
        (contains "cookie" leaf ∧ leaf ∉ fpCookieSecretLeaves)) then false
  else if sensitivityClass ∈ ["secret", "pii"] ∧
      ((tier ≠ .tierA ∧ fpIdSuffixes.any (endsWith · leaf)) ∨
        (contains "user" leaf ∧ leaf ∉ piiCompoundLeaves)) then false
  else if sensitivityClass = "security_metadata" ∧
      ((tier ≠ .tierA ∧ fpIdSuffixes.any (endsWith · leaf)) ∨
        (contains "session" leaf ∧ leaf ∉ securityMetadataSessionAllowed)) then false
  else true

/-- The substring or a spelling of it stands in the name. -/
def hasVariant (leaf sub : String) : Bool :=
  [sub, replaceChar '-' '_' sub, replaceChar '_' '-' sub, removeChar '-' sub].any fun v =>
    contains v leaf || contains v (removeChar '_' leaf)

/-- The rule and the segment `_match_secret_field_name` answers. -/
def matchSecretFieldName (leaf : String) : Option (String × String) :=
  if (leaf ∈ fpCookieSecretLeaves ∨ leaf ∈ sensitiveFieldNames) ∧
      applyFalsePositivePolicy leaf "secret" .tierA then some ("secret.leaf." ++ leaf, leaf)
  else
    (secretTierBSubstrings.find? fun sub =>
      hasVariant leaf sub && applyFalsePositivePolicy leaf "secret" .tierB).map fun sub =>
        ("secret.substring." ++ sub, sub)

def matchPiiFieldName (leaf : String) : Option (String × String) :=
  if leaf ∈ piiExactLeaves ++ piiCompoundLeaves ++ ["email_verified", "email_domain"] ∧
      applyFalsePositivePolicy leaf "pii" .tierA then some ("pii.leaf." ++ leaf, leaf)
  else none

def matchSecurityMetadataFieldName (leaf : String) : Option (String × String) :=
  if leaf = "auth" ∧ applyFalsePositivePolicy leaf "security_metadata" .tierA then
    some ("security_metadata.leaf.auth", "auth")
  else
    match securityMetadataTerms.find? fun term =>
        contains term leaf && applyFalsePositivePolicy leaf "security_metadata" .tierB with
    | some term => some ("security_metadata.term." ++ term, term)
    | none =>
      if leaf ∈ securityMetadataSessionAllowed then
        some ("security_metadata.leaf." ++ leaf, leaf)
      else none

/-- What a rule reports of a path. -/
structure RuleHit where
  sensitivityClass : String
  detectionMethod : String
  matchedRule : String
  matchedSegment : String
  pattern : Option String := none
  deriving DecidableEq, Repr

/-- `evaluate_field_name_rules`, on the last segment of the path. -/
def evaluateFieldNameRules (leaf : String) : List RuleHit :=
  if leaf.isEmpty then []
  else
    [("secret", matchSecretFieldName leaf), ("pii", matchPiiFieldName leaf),
      ("security_metadata", matchSecurityMetadataFieldName leaf)].filterMap fun (cls, matched) =>
        matched.map fun (rule, segment) => ⟨cls, "field_name", rule, segment, none⟩

/-! ### Patterns -/

def pemPatternMatch (value : String) : Bool :=
  contains "-----BEGIN" value && contains "-----END" value

def isLetter (c : Char) : Bool := ('A' ≤ c && c ≤ 'Z') || ('a' ≤ c && c ≤ 'z')

def isAlnum (c : Char) : Bool := isLetter c || ('0' ≤ c && c ≤ '9')

def maxEmailLen : ℕ := 320

/-- What `_EMAIL_RE` wants after the at sign: labels, the last dot, and at least two letters. -/
def isEmailDomain (domain : List Char) : Bool :=
  let top := domain.rtakeWhile (· ≠ '.')
  let labels := (domain.take (domain.length - top.length)).dropLast
  decide (top.length < domain.length) && !labels.isEmpty &&
    labels.all (fun c => isAlnum c || c = '.' || c = '-') && decide (2 ≤ top.length) &&
      top.all isLetter

/-- `email_pattern_match`; the end anchor also stands before one line break at the end. -/
def emailPatternMatch (value : String) : Bool :=
  let text := if value.toList.getLast? = some '\n' then value.toList.dropLast else value.toList
  let user := text.takeWhile (· ≠ '@')
  decide (value.length ≤ maxEmailLen) && decide (user.length < text.length) && !user.isEmpty &&
    user.all (fun c => isAlnum c || c ∈ ['.', '_', '%', '+', '-']) &&
      isEmailDomain (text.drop (user.length + 1))

/-- `evaluate_pattern_rules`, on the last segment of a path of type `string`. -/
def evaluatePatternRules (leaf : String) (sampleValue : Option String) : Option RuleHit :=
  match sampleValue with
  | none => none
  | some value =>
    let segment := if leaf.isEmpty then "value" else leaf
    if value.isEmpty then none
    else if pemPatternMatch value && applyFalsePositivePolicy leaf "secret" .tierB then
      some ⟨"secret", "pattern", "pattern.pem", segment, some "pem"⟩
    else if emailPatternMatch value && (matchPiiFieldName leaf).isSome &&
        applyFalsePositivePolicy leaf "pii" .tierB then
      some ⟨"pii", "pattern", "pattern.email", segment, some "email"⟩
    else none

/-! ### A batch -/

structure DetectionSettings where
  caseTable : CaseTable
  isEnabled : Bool := true
  maxDepth : ℕ := 64
  maxPaths : ℕ := 5000
  maxEvents : ℕ := 500

structure DetectionHit where
  fieldPath : String
  inferredType : InferredType
  hit : RuleHit
  deriving DecidableEq, Repr

/-- One entry for each path and class: the first. -/
def addHit (hits : List DetectionHit) (new : DetectionHit) : List DetectionHit :=
  if hits.any fun h => h.fieldPath = new.fieldPath ∧
      h.hit.sensitivityClass = new.hit.sensitivityClass then hits
  else hits ++ [new]

/-- `detect_hits_for_batch`. -/
def detectHitsForBatch (S : DetectionSettings) (events : List Json) : List DetectionHit :=
  let paths := collectPathsFromEvents S.maxDepth S.maxPaths S.maxEvents events
  let samples := collectStringSamplesFromEvents S.maxDepth S.maxPaths S.maxEvents events
  (sortBy Prod.fst paths).foldl (fun hits (path, type) =>
    let leaf := leafSegment S.caseTable path
    let found := evaluateFieldNameRules leaf ++
      if type = .string then (evaluatePatternRules leaf (Dict.get? path samples)).toList else []
    (found.map (DetectionHit.mk path type)).foldl addHit hits) []

end SensitiveDetection
