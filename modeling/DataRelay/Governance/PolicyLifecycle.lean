import DataRelay.Lib.PyText
import DataRelay.Runner.StreamRun

/-! The two services that move a governance policy through its statuses: the lifecycle
endpoints, and the approval workflow with its event log. The store is the row and the events of
one policy; each request is one transaction, rolled back when it raises. -/
namespace Governance
open Runner

inductive PolicyStatus where
  | draft
  | review
  | active
  | retired
  deriving DecidableEq, Repr

def PolicyStatus.text : PolicyStatus → String
  | .draft => "DRAFT"
  | .review => "REVIEW"
  | .active => "ACTIVE"
  | .retired => "RETIRED"

/-- `POLICY_LIFECYCLE_TRANSITIONS`. -/
def PolicyStatus.next : PolicyStatus → Option PolicyStatus
  | .draft => some .review
  | .review => some .active
  | .active => some .retired
  | .retired => none

inductive ApprovalEventType where
  | submitted
  | approved
  | rejected
  | requestChanges
  | activated
  | cancelled
  deriving DecidableEq, Repr

inductive GovernanceError where
  | notFound
  | validation (message : String)
  | lifecycle (message : String)
  | approval (message : String)
  deriving DecidableEq, Repr

structure GovernancePolicy where
  name : String
  description : Option String := none
  category : String
  status : PolicyStatus := .draft
  policyJson : Json
  version : ℕ := 1
  activatedAt : Option ℤ := none
  retiredAt : Option ℤ := none
  deriving DecidableEq

structure ApprovalEvent where
  eventType : ApprovalEventType
  actor : String
  comment : Option String
  createdAt : ℤ
  deriving DecidableEq

/-- `events` is in the order `_load_events_for_policy` reads it, by time and then by id. -/
structure Store where
  policy : Option GovernancePolicy := none
  events : List ApprovalEvent := []
  deriving DecidableEq

/-! ### Validation -/

def policyCategories : List String := ["DATA_PROTECTION", "AI_GOVERNANCE", "COMPLIANCE", "CUSTOM"]

def conditionFields : List String := ["classification", "sensitivity", "field"]

def conditionOperators : List String := ["equals", "not_equals", "contains"]

def policyActionTypes : List String := ["quarantine", "tokenize", "mask", "audit_only"]

def validateCategory (repr : Json → String) (category : String) : Except GovernanceError Unit :=
  if category ∈ policyCategories then .ok ()
  else .error (.validation ("unsupported category: " ++ repr (.str category)))

def validateName (name : String) : Except GovernanceError String :=
  if PyText.strip name = "" then .error (.validation "name is required")
  else .ok (PyText.strip name)

/-- A string out of a list of choices; `repr` is the value in the message. -/
def validateChoice (repr : Json → String) (what : String) (choices : List String) (v : Json) :
    Except GovernanceError Unit :=
  match v with
  | .str s =>
    if s ∈ choices then .ok () else .error (.validation ("unsupported " ++ what ++ ": " ++ repr v))
  | _ => .error (.validation ("unsupported " ++ what ++ ": " ++ repr v))

def validateCondition (repr : Json → String) (idx : ℕ) : Json → Except GovernanceError Unit
  | .obj condition => do
    validateChoice repr "condition field" conditionFields (getOrNull "field" condition)
    validateChoice repr "operator" conditionOperators (getOrNull "operator" condition)
    match getOrNull "value" condition with
    | .str value =>
      if PyText.strip value = "" then
        .error (.validation ("conditions[" ++ toString idx ++ "].value is required"))
      else .ok ()
    | _ => .error (.validation ("conditions[" ++ toString idx ++ "].value is required"))
  | _ => .error (.validation ("conditions[" ++ toString idx ++ "] must be an object"))

def validateAction (repr : Json → String) (idx : ℕ) : Json → Except GovernanceError Unit
  | .obj action => validateChoice repr "action type" policyActionTypes (getOrNull "type" action)
  | _ => .error (.validation ("actions[" ++ toString idx ++ "] must be an object"))

def validateEach (check : ℕ → Json → Except GovernanceError Unit) (idx : ℕ) :
    List Json → Except GovernanceError Unit
  | [] => .ok ()
  | v :: vs => do
    check idx v
    validateEach check (idx + 1) vs

/-- `_validate_policy_json`. -/
def validatePolicyJson (repr : Json → String) : Json → Except GovernanceError Unit
  | .obj members =>
    match getOrNull "conditions" members, getOrNull "actions" members with
    | .arr conditions, .arr actions =>
      if conditions = [] then .error (.validation "policy_json requires at least one condition")
      else if actions = [] then .error (.validation "policy_json requires at least one action")
      else do
        validateEach (validateCondition repr) 0 conditions
        validateEach (validateAction repr) 0 actions
    | .arr _, _ => .error (.validation "policy_json.actions must be an array")
    | _, _ => .error (.validation "policy_json.conditions must be an array")
  | _ => .error (.validation "policy_json must be an object")

/-! ### The lifecycle service -/

/-- `description.strip() if description else None`. -/
def trimmedOrNone (text : Option String) : Option String :=
  match text with
  | none => none
  | some t => if t = "" then none else some (PyText.strip t)

structure PolicyCreate where
  name : String
  description : Option String := none
  category : String
  status : PolicyStatus := .draft
  policyJson : Json

structure PolicyUpdate where
  name : Option String := none
  description : Option String := none
  category : Option String := none
  status : Option PolicyStatus := none
  policyJson : Option Json := none

/-- `create_governance_policy`. -/
def createGovernancePolicy (repr : Json → String) (body : PolicyCreate) :
    Except GovernanceError GovernancePolicy := do
  let label ← validateName body.name
  validateCategory repr body.category
  if body.status ≠ .draft then
    .error (.validation "new policies must be created in DRAFT status")
  else
    validatePolicyJson repr body.policyJson
    .ok {
      name := label
      description := trimmedOrNone body.description
      category := body.category
      policyJson := body.policyJson }

/-- A field that an update leaves alone or replaces by a checked value. -/
def keepOr (current : String) (check : String → Except GovernanceError String) :
    Option String → Except GovernanceError String
  | none => .ok current
  | some value => check value

/-- The new name, description and category of an update. -/
def updateLabels (repr : Json → String) (row : GovernancePolicy) (body : PolicyUpdate) :
    Except GovernanceError GovernancePolicy := do
  let name ← keepOr row.name validateName body.name
  let category ← keepOr row.category
    (fun category => (validateCategory repr category).map fun _ => category) body.category
  .ok { row with
    name := name
    description := match body.description with
      | none => row.description
      | some text => trimmedOrNone (some text)
    category := category }

def checkStatus (row : GovernancePolicy) (status : Option PolicyStatus) :
    Except GovernanceError Unit :=
  match status with
  | none => .ok ()
  | some status =>
    if status = row.status then .ok ()
    else .error (.lifecycle ("status changes must use lifecycle endpoints (current: " ++
      row.status.text ++ ", requested: " ++ status.text ++ ")"))

/-- The new `policy_json` of an update and the version it gets. -/
def updatePolicyJson (repr : Json → String) (row : GovernancePolicy) (policyJson : Option Json) :
    Except GovernanceError GovernancePolicy :=
  match policyJson with
  | none => .ok row
  | some json =>
    if row.status = .active ∨ row.status = .retired then
      .error (.lifecycle ("policy_json cannot be changed while status is " ++ row.status.text))
    else do
      validatePolicyJson repr json
      .ok { row with policyJson := json, version := row.version + 1 }

/-- `update_governance_policy`. -/
def updateGovernancePolicy (repr : Json → String) (row : GovernancePolicy) (body : PolicyUpdate) :
    Except GovernanceError GovernancePolicy :=
  if row.status = .retired then .error (.lifecycle "retired policies are view-only")
  else do
    let labelled ← updateLabels repr row body
    checkStatus row body.status
    updatePolicyJson repr labelled body.policyJson

/-- `_transition_policy_status`. -/
def transitionPolicyStatus (now : ℤ) (target : PolicyStatus) (row : GovernancePolicy) :
    Except GovernanceError GovernancePolicy :=
  if row.status.next = some target then
    .ok { row with
      status := target
      activatedAt := if target = .active then some now else row.activatedAt
      retiredAt := if target = .retired then some now else row.retiredAt }
  else .error (.lifecycle ("invalid status transition: " ++ row.status.text ++ " -> " ++
    target.text))

def submitPolicyForReview (now : ℤ) : GovernancePolicy → Except GovernanceError GovernancePolicy :=
  transitionPolicyStatus now .review

def activatePolicy (now : ℤ) : GovernancePolicy → Except GovernanceError GovernancePolicy :=
  transitionPolicyStatus now .active

def retirePolicy (now : ℤ) : GovernancePolicy → Except GovernanceError GovernancePolicy :=
  transitionPolicyStatus now .retired

/-! ### The approval service -/

/-- `_latest_submit_index`. -/
def latestSubmitIndex : List ApprovalEvent → Option ℕ
  | [] => none
  | e :: es =>
    match latestSubmitIndex es with
    | some idx => some (idx + 1)
    | none => if e.eventType = .submitted then some 0 else none

/-- `_TERMINAL_REVIEW_EVENTS`. -/
def terminalReviewEvents : List ApprovalEventType :=
  [.rejected, .requestChanges, .activated, .cancelled]

/-- The event types that end a review without an activation. -/
def refusingEvents : List ApprovalEventType := [.rejected, .requestChanges, .cancelled]

/-- `_is_approved_cycle`. -/
def isApprovedCycle (events : List ApprovalEvent) : Bool :=
  match latestSubmitIndex events with
  | none => false
  | some idx =>
    let cycle := events.drop idx
    if cycle.any (fun e => e.eventType ∈ terminalReviewEvents && e.eventType ≠ .activated) &&
        cycle.any (fun e => e.eventType ∈ refusingEvents) then false
    else cycle.any fun e => e.eventType = .approved

/-- `_record_event`: the new row has the largest id, so it stands behind the rows of its time. -/
def recordEvent (eventType : ApprovalEventType) (actor : String) (comment : Option String)
    (now : ℤ) (events : List ApprovalEvent) : List ApprovalEvent :=
  let event : ApprovalEvent := {
    eventType := eventType
    actor := if PyText.strip actor = "" then "Governance Operator" else PyText.strip actor
    comment := trimmedOrNone comment
    createdAt := now }
  events.takeWhile (fun e => decide (e.createdAt ≤ now)) ++
    event :: events.dropWhile (fun e => decide (e.createdAt ≤ now))

/-- Who acts in the approval workflow, and with which comment. -/
structure Action where
  actor : String
  comment : Option String := none

/-- `submit_policy_approval`. -/
def submitPolicyApproval (now : ℤ) (action : Action) (store : Store) (row : GovernancePolicy) :
    Except GovernanceError Store :=
  match row.status with
  | .active => .error (.approval "active policies cannot be submitted for review")
  | .retired => .error (.approval "retired policies cannot be submitted for review")
  | .review => .error (.approval ("only DRAFT policies can be submitted (current: " ++
      row.status.text ++ ")"))
  | .draft => do
    let updated ← submitPolicyForReview now row
    .ok ⟨some updated, recordEvent .submitted action.actor action.comment now store.events⟩

/-- `approve_policy`. -/
def approvePolicy (now : ℤ) (action : Action) (store : Store) (row : GovernancePolicy) :
    Except GovernanceError Store :=
  match row.status with
  | .retired => .error (.approval "retired policies cannot be approved")
  | .draft => .error (.approval "draft policies cannot be approved — submit for review first")
  | .active => .error (.approval "active policies cannot be approved")
  | .review => .ok ⟨some row, recordEvent .approved action.actor action.comment now store.events⟩

/-- `revert_policy_to_draft`. -/
def revertPolicyToDraft (row : GovernancePolicy) : Except GovernanceError GovernancePolicy :=
  if row.status = .review then .ok { row with status := .draft }
  else .error (.approval ("only policies in REVIEW can be returned to DRAFT (current: " ++
    row.status.text ++ ")"))

/-- `reject_policy`. -/
def rejectPolicy (now : ℤ) (requestChanges : Bool) (action : Action) (store : Store)
    (row : GovernancePolicy) : Except GovernanceError Store :=
  match row.status with
  | .active => .error (.approval "active policies cannot be rejected")
  | .retired => .error (.approval "retired policies cannot be rejected")
  | .draft => .error (.approval ("only REVIEW policies can be rejected (current: " ++
      row.status.text ++ ")"))
  | .review => do
    let eventType := if requestChanges then ApprovalEventType.requestChanges else .rejected
    let reverted ← revertPolicyToDraft row
    .ok ⟨some reverted, recordEvent eventType action.actor action.comment now store.events⟩

/-- `activate_approved_policy`. -/
def activateApprovedPolicy (now : ℤ) (action : Action) (store : Store) (row : GovernancePolicy) :
    Except GovernanceError Store :=
  match row.status with
  | .retired => .error (.approval "retired policies cannot be activated")
  | .active => .error (.approval "policy is already active")
  | .draft => .error (.approval ("only approved REVIEW policies can be activated (current: " ++
      row.status.text ++ ")"))
  | .review =>
    if isApprovedCycle store.events then do
      let updated ← activatePolicy now row
      .ok ⟨some updated, recordEvent .activated action.actor action.comment now store.events⟩
    else .error (.approval "policy must be approved before activation")

/-! ### Requests -/

/-- A request on the policy: the first five through the lifecycle endpoints, the others through
the approval service. -/
inductive Request where
  | create (body : PolicyCreate)
  | update (body : PolicyUpdate)
  | submitReview
  | activate
  | retire
  | submitApproval (action : Action)
  | approve (action : Action)
  | reject (requestChanges : Bool) (action : Action)
  | activateApproved (action : Action)

/-- Run a service function on the policy's row. -/
def onPolicy (store : Store) (f : GovernancePolicy → Except GovernanceError Store) :
    Except GovernanceError Store :=
  match store.policy with
  | none => .error .notFound
  | some row => f row

/-- Keep the events and write the row. -/
def onRow (store : Store) (f : GovernancePolicy → Except GovernanceError GovernancePolicy) :
    Except GovernanceError Store :=
  onPolicy store fun row => (f row).map fun updated => ⟨some updated, store.events⟩

/-- One request at the time `now`. A create makes this policy's row, and when there is one
another policy's. -/
def handle (repr : Json → String) (request : Request) (now : ℤ) (store : Store) :
    Except GovernanceError Store :=
  match request with
  | .create body =>
    match store.policy with
    | some _ => .ok store
    | none => (createGovernancePolicy repr body).map fun row => ⟨some row, []⟩
  | .update body => onRow store fun row => updateGovernancePolicy repr row body
  | .submitReview => onRow store (submitPolicyForReview now)
  | .activate => onRow store (activatePolicy now)
  | .retire => onRow store (retirePolicy now)
  | .submitApproval action => onPolicy store (submitPolicyApproval now action store)
  | .approve action => onPolicy store (approvePolicy now action store)
  | .reject requestChanges action => onPolicy store (rejectPolicy now requestChanges action store)
  | .activateApproved action => onPolicy store (activateApprovedPolicy now action store)

end Governance
