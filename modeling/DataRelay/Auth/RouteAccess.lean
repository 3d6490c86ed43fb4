import DataRelay.Lib.PyText
import Mathlib

/-! The coarse access rules of the HTTP routes: role, method and path decide, in one ordered
cascade over prefixes, suffixes and substrings of the raw path. -/
namespace RouteAccess
open PyText

/-! ### Roles -/

def administrator : String := "ADMINISTRATOR"
def operator : String := "OPERATOR"
def connectorOperator : String := "CONNECTOR_OPERATOR"
def governanceOperator : String := "GOVERNANCE_OPERATOR"
def governanceReviewer : String := "GOVERNANCE_REVIEWER"
def governanceApprover : String := "GOVERNANCE_APPROVER"
def governanceAuditor : String := "GOVERNANCE_AUDITOR"
def viewer : String := "VIEWER"

def governanceRoles : List String :=
  [governanceOperator, governanceReviewer, governanceApprover, governanceAuditor]

def allPlatformRoles : List String :=
  [administrator, operator, connectorOperator, governanceOperator, governanceReviewer,
    governanceApprover, governanceAuditor, viewer]

def normalizePlatformRole (role : String) : String :=
  if upper (strip role) = operator then connectorOperator else upper (strip role)

def isAdministrator (role : String) : Bool := upper (strip role) = administrator

def canConnectorOperate (role : String) : Bool :=
  isAdministrator role || normalizePlatformRole role = connectorOperator

def canAiPolicyRead (role : String) : Bool :=
  isAdministrator role || normalizePlatformRole role ∈ [connectorOperator, viewer]

def canGovernanceRead (role : String) : Bool :=
  isAdministrator role || normalizePlatformRole role ∈ governanceRoles ++ [connectorOperator]

def canGovernanceDashboardRead (role : String) : Bool :=
  canGovernanceRead role || normalizePlatformRole role = viewer

def canGovernanceOperationsAccess (role : String) : Bool :=
  isAdministrator role ||
    normalizePlatformRole role ∈ [governanceOperator, governanceReviewer, governanceApprover]

def canGovernanceWrite (role : String) : Bool :=
  isAdministrator role || normalizePlatformRole role = governanceOperator

def canPolicyReview (role : String) : Bool :=
  isAdministrator role || normalizePlatformRole role ∈ [governanceReviewer, governanceApprover]

def canPolicyApprove (role : String) : Bool := canPolicyReview role

def canPolicyActivate (role : String) : Bool :=
  isAdministrator role || normalizePlatformRole role = governanceApprover

def canQuarantineAction (role : String) : Bool :=
  isAdministrator role || normalizePlatformRole role = governanceOperator

def canReplayAction (role : String) : Bool := canQuarantineAction role

def canAiAuditRead (role : String) : Bool := canAiPolicyRead role
def canAiGovernanceRead (role : String) : Bool := canAiPolicyRead role
def canAiGovernanceOperate (role : String) : Bool := canConnectorOperate role
def canAiPolicyOperate (role : String) : Bool := canConnectorOperate role

/-! ### Paths -/

/-- `path.startswith(prefix)`. -/
def startsWith (front path : String) : Bool := decide (front.toList <+: path.toList)

/-- `path.endswith(suffix)`. -/
def endsWith (back path : String) : Bool := decide (back.toList <:+ path.toList)

/-- `part in path`. -/
def occursIn (part path : String) : Bool := decide (part.toList <:+: path.toList)

/-- `_under`. -/
def under (front path : String) : Bool := path = front || startsWith (front ++ "/") path

def isSafe (m : String) : Bool := m ∈ ["GET", "HEAD", "OPTIONS"]

structure AccessDenied where
  errorCode : String
  message : String
  deriving DecidableEq, Repr

section access

-- `api_prefix()`
variable (base : String)

def isGovernanceReadPost (path : String) : Bool :=
  startsWith (base ++ "/governance") path &&
    (endsWith "/preview" path || endsWith "/simulate" path || occursIn "/impact-preview" path ||
      endsWith "/impact" path)

def isViewerAllowedPost (path : String) : Bool :=
  startsWith (base ++ "/runtime/preview/") path || path = base ++ "/runtime/format-preview" ||
    (occursIn "/runtime/streams/" path && endsWith "/pipeline-debug" path)

def isMfaEnrolment (path : String) : Bool :=
  path ∈ [base ++ "/auth/mfa/enroll/start", base ++ "/auth/mfa/enroll/confirm"]

def adminExclusive : List String :=
  [base ++ "/admin/maintenance/health", base ++ "/admin/dev-validation/status",
    base ++ "/admin/support-bundle", base ++ "/admin/network-settings",
    base ++ "/admin/management-access", base ++ "/admin/users"]

def policyPrefixes : List String :=
  [base ++ "/admin/https-settings", base ++ "/admin/retention-policy",
    base ++ "/admin/alert-settings"]

def deny (errorCode message : String) : Option AccessDenied := some ⟨errorCode, message⟩

/-- The checks for administrator surfaces, platform policy and wide configuration. -/
def administratorChecks (role m path : String) : Option AccessDenied :=
  if (adminExclusive base).any (under · path) ∧ role ≠ administrator then
    deny "ROLE_FORBIDDEN" "This endpoint requires the Administrator role."
  else if under (base ++ "/admin/password") path ∧ role ≠ administrator then
    deny "ROLE_FORBIDDEN" "This endpoint requires the Administrator role."
  else if (policyPrefixes base).any (under · path) ∧ ¬ isSafe m ∧ role ≠ administrator then
    deny "ROLE_FORBIDDEN" "Only an Administrator may change this platform configuration."
  else if startsWith (base ++ "/backup/import/apply") path ∧ ¬ isSafe m ∧ role ≠ administrator then
    deny "ROLE_FORBIDDEN" "Workspace import apply requires the Administrator role."
  else if occursIn "/apply-snapshot" path ∧ startsWith (base ++ "/admin/config-versions") path ∧
      ¬ isSafe m ∧ role ≠ administrator then
    deny "ROLE_FORBIDDEN" "Applying configuration snapshots requires the Administrator role."
  else none

/-- Who may see the part of the governance plane a path is in. -/
def governanceReadCheck (role path : String) : Option AccessDenied :=
  if startsWith (base ++ "/governance" ++ "/dashboard") path then
    if canGovernanceDashboardRead role = false then
      deny "GOVERNANCE_DASHBOARD_FORBIDDEN"
        "Governance dashboard requires an authorized Governance role or Viewer."
    else none
  else if startsWith (base ++ "/governance" ++ "/operations") path then
    if canGovernanceOperationsAccess role = false then
      deny "GOVERNANCE_OPERATIONS_FORBIDDEN"
        "Governance Operations requires Governance Operator role or higher."
    else none
  else if canGovernanceRead role = false then
    deny "GOVERNANCE_READ_FORBIDDEN"
      "Governance access requires an authorized Governance or Connector Operator role."
  else none

/-- Who may take the action a path names. -/
def governanceActionCheck (role path : String) : Option AccessDenied :=
  if endsWith "/activate" path ∨ occursIn "/approvals/" path ∧ endsWith "/activate" path then
    if canPolicyActivate role = false then
      deny "GOVERNANCE_ACTIVATE_FORBIDDEN" "Policy activation requires Governance Approver role."
    else none
  else if occursIn "/approvals/" path ∧ (endsWith "/approve" path ∨ endsWith "/reject" path) then
    if canPolicyApprove role = false then
      deny "GOVERNANCE_APPROVAL_FORBIDDEN"
        "Governance approval requires Governance Reviewer or Approver role."
    else none
  else if occursIn "/quarantine/release" path ∨ occursIn "/quarantine/discard" path then
    if canQuarantineAction role = false then
      deny "GOVERNANCE_QUARANTINE_FORBIDDEN" "Quarantine release requires Governance Operator role."
    else none
  else if occursIn "/quarantine/replay" path then
    if canReplayAction role = false then
      deny "GOVERNANCE_REPLAY_FORBIDDEN" "Replay execution requires Governance Operator role."
    else none
  else if occursIn "/governance/replay" path ∧
      (endsWith "/execute" path ∨ endsWith "/bulk-execute" path) then
    if canReplayAction role = false then
      deny "GOVERNANCE_REPLAY_FORBIDDEN" "Replay execution requires Governance Operator role."
    else none
  else if canGovernanceWrite role = false then
    deny "GOVERNANCE_WRITE_FORBIDDEN" "Governance write actions require Governance Operator role."
  else none

/-- The governance control plane. -/
def governanceChecks (role m path : String) : Option AccessDenied :=
  if under (base ++ "/governance") path then
    (governanceReadCheck base role path).or
      (if ¬ isSafe m ∧ ¬ isViewerAllowedPost base path ∧ ¬ isGovernanceReadPost base path then
        governanceActionCheck role path
      else none)
  else none

/-- Governance-only roles have no other mutations. -/
def governanceOnlyCheck (role m path : String) : Option AccessDenied :=
  if (¬ isSafe m ∧ ¬ isViewerAllowedPost base path) ∧
      normalizePlatformRole role ∉ [administrator, connectorOperator, operator, viewer] ∧
      ¬ under (base ++ "/governance") path then
    deny "ROLE_FORBIDDEN" "This role may only access Governance resources."
  else none

/-- The AI gateway. -/
def aiChecks (role m path : String) : Option AccessDenied :=
  if under (base ++ "/ai-providers") path ∧ ¬ isSafe m ∧ canConnectorOperate role = false then
    deny "ROLE_FORBIDDEN" "AI Provider mutations require Connector Operator or Administrator role."
  else if under (base ++ "/ai-streams") path ∧ ¬ isSafe m ∧ canConnectorOperate role = false then
    deny "ROLE_FORBIDDEN" "AI Stream mutations require Connector Operator or Administrator role."
  else if under (base ++ "/ai-policy-rules") path ∧ isSafe m ∧ canAiPolicyRead role = false then
    deny "ROLE_FORBIDDEN"
      "AI policy read requires Connector Operator, Viewer, or Administrator role."
  else if under (base ++ "/ai-policy-rules") path ∧ ¬ isSafe m ∧
      canAiPolicyOperate role = false then
    deny "ROLE_FORBIDDEN" "AI policy mutations require Connector Operator or Administrator role."
  else if under (base ++ "/ai-providers/traffic") path ∧ ¬ isSafe m ∧
      canConnectorOperate role = false then
    deny "ROLE_FORBIDDEN" "AI traffic metrics are read-only for VIEWER role."
  else if under (base ++ "/ai-audit-events") path ∧ ¬ isSafe m then
    deny "ROLE_FORBIDDEN" "AI audit API is read-only."
  else if under (base ++ "/ai-audit-events") path ∧ canAiAuditRead role = false then
    deny "ROLE_FORBIDDEN" "AI audit read requires Connector Operator, Viewer, or Administrator role."
  else if under (base ++ "/ai-governance") path ∧ isSafe m ∧ canAiGovernanceRead role = false then
    deny "ROLE_FORBIDDEN"
      "AI governance read requires Connector Operator, Viewer, or Administrator role."
  else if under (base ++ "/ai-governance") path ∧ ¬ isSafe m ∧
      canAiGovernanceOperate role = false then
    deny "ROLE_FORBIDDEN" "AI governance mutations require Connector Operator or Administrator role."
  else none

def operatorMutationDeny : List String :=
  [base ++ "/admin/users", base ++ "/admin/password", base ++ "/admin/https-settings",
    base ++ "/admin/retention-policy", base ++ "/admin/alert-settings"]

/-- Self-service, then the read-only role, then the legacy operator. -/
def lastChecks (role m path : String) : Option AccessDenied :=
  if m = "POST" ∧ path = base ++ "/auth/change-password" then none
  else if role = viewer ∧ ¬ isSafe m then
    if isViewerAllowedPost base path then none
    else deny "ROLE_FORBIDDEN" "VIEWER role cannot perform mutating actions."
  else if role = operator ∧ ¬ isSafe m ∧ (operatorMutationDeny base).any (under · path) then
    deny "ROLE_FORBIDDEN" "OPERATOR role cannot modify administrator-only resources."
  else none

/-- `evaluate_http_access`. -/
def evaluateHttpAccess (role method path : String) : Option AccessDenied :=
  let m := upper method
  if m = "POST" ∧ isMfaEnrolment base path then none
  else
    (administratorChecks base role m path).or
      ((governanceChecks base role m path).or
        ((governanceOnlyCheck base role m path).or
          ((aiChecks base role m path).or (lastChecks base role m path))))

end access

end RouteAccess
