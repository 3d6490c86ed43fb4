import DataRelay.Lib.ReadCommitted
import DataRelay.Lib.PyText

/-! The notification outbox: an event is recorded with one job for each channel, workers claim
jobs under a lease and complete them with its token, and every completion sets the status of the
event anew. Times are in seconds. -/
namespace Notifications
open ReadCommitted PyText

inductive JobStatus where
  | pending
  | leased
  | sent
  | dead
  deriving DecidableEq, Repr

inductive EventStatus where
  | pending
  | sent
  | failed
  deriving DecidableEq, Repr

inductive Channel where
  | email
  | webhook
  deriving DecidableEq, Repr

inductive Category where
  | approval
  | violation
  | quarantine
  | replay
  deriving DecidableEq, Repr

/-- `GovernanceNotificationConfig`; the recipients are `none` where they are not a list. -/
structure Config where
  approvalEvents : Bool := true
  violationEvents : Bool := true
  quarantineEvents : Bool := true
  replayEvents : Bool := true
  emailEnabled : Bool := false
  emailRecipients : Option (List String) := some []
  webhookEnabled : Bool := false
  webhookUrl : Option String := none
  updatedAt : ℤ
  deriving DecidableEq, Repr

/-- `GovernanceNotificationEvent`. -/
structure Event where
  category : Category
  status : EventStatus := .pending
  sentAt : Option ℤ := none
  deriving DecidableEq, Repr

/-- `GovernanceNotificationDeliveryJob`. -/
structure Job where
  eventId : ℕ
  channel : Channel
  configUpdatedAt : ℤ
  status : JobStatus := .pending
  attemptCount : ℕ := 0
  nextAttemptAt : ℤ
  leaseToken : Option String := none
  leaseExpiresAt : Option ℤ := none
  lastErrorType : Option String := none
  updatedAt : ℤ
  deriving DecidableEq, Repr

inductive Key where
  | config
  | event (id : ℕ)
  | job (id : ℕ)
  deriving DecidableEq, Repr

inductive Row where
  | config (config : Config)
  | event (event : Event)
  | job (job : Job)
  deriving DecidableEq, Repr

/-- What the commits say they did: a claim, a job given up by a claim, an accepted completion. -/
inductive Entry where
  | claimed (jobId : ℕ) (token : String) (now : ℤ)
  | expired (jobId : ℕ) (now : ℤ)
  | completed (jobId : ℕ) (token : String)
  deriving DecidableEq, Repr

abbrev Rows := Table Key Row

abbrev Code := Program Key Row Unit Entry

def maxAttempts : ℕ := 5

def configOf (rows : Rows) : Option Config :=
  match Dict.get? .config rows with
  | some (.config config) => some config
  | _ => none

def eventAt (id : ℕ) (rows : Rows) : Option Event :=
  match Dict.get? (.event id) rows with
  | some (.event event) => some event
  | _ => none

def jobAt (id : ℕ) (rows : Rows) : Option Job :=
  match Dict.get? (.job id) rows with
  | some (.job job) => some job
  | _ => none

def updateConfig (f : Config → Config) : Option Row → Option Row
  | some (.config config) => some (.config (f config))
  | row => row

def updateEvent (f : Event → Event) : Option Row → Option Row
  | some (.event event) => some (.event (f event))
  | row => row

def updateJob (f : Job → Job) : Option Row → Option Row
  | some (.job job) => some (.job (f job))
  | row => row

/-! ### Recording -/

/-- `get_or_create_config`; of two that create it the first is kept. -/
def getOrCreateConfig (now : ℤ) (next : Config → Code) : Code :=
  .read fun rows =>
    match configOf rows with
    | some config => next config
    | none => .write .config (fun row => row.or (some (.config { updatedAt := now })))
        (next { updatedAt := now })

/-- `update_config`. -/
def updateConfiguration (change : Config → Config) (now : ℤ) : Code :=
  getOrCreateConfig now fun _ =>
    .write .config (updateConfig fun config => { change config with updatedAt := now })
      (.commit [] .done)

def categoryEnabled (config : Config) : Category → Bool
  | .approval => config.approvalEvents
  | .violation => config.violationEvents
  | .quarantine => config.quarantineEvents
  | .replay => config.replayEvents

/-- The channels `enqueue_delivery_jobs` makes a job for. -/
def configuredChannels (config : Config) : List Channel :=
  (if config.emailEnabled && (config.emailRecipients.getD []).any (strip · ≠ "") then [.email]
    else []) ++
  (if config.webhookEnabled && config.webhookUrl.any (· ≠ "") then [.webhook] else [])

/-- `enqueue_delivery_jobs`; the ids are those the sequence gives. -/
def enqueueDeliveryJobs (config : Config) (eventId : ℕ) (jobIds : Channel → ℕ) (now : ℤ)
    (next : Code) : List Channel → Code
  | [] => next
  | channel :: channels =>
    .insert (.job (jobIds channel)) (.job {
      eventId := eventId, channel := channel, configUpdatedAt := config.updatedAt
      nextAttemptAt := now, updatedAt := now })
      (enqueueDeliveryJobs config eventId jobIds now next channels)

/-- `record_event`, and the commit of the caller's transaction. -/
def recordEvent (category : Category) (eventId : ℕ) (jobIds : Channel → ℕ) (now : ℤ) : Code :=
  getOrCreateConfig now fun config =>
    if !categoryEnabled config category || (!config.emailEnabled && !config.webhookEnabled) then
      .commit [] .done
    else
      .insert (.event eventId) (.event { category := category })
        (enqueueDeliveryJobs config eventId jobIds now
          (if configuredChannels config = [] then
            .write (.event eventId)
              (updateEvent fun event => { event with status := .failed, sentAt := some now })
              (.commit [] .done)
          else .commit [] .done)
          (configuredChannels config))

/-! ### Claims -/

/-- The condition of `_eligible_query`. -/
def eligible (now : ℤ) (job : Job) : Bool :=
  (job.status = .pending && job.nextAttemptAt ≤ now) ||
    (job.status = .leased && job.leaseExpiresAt.any (· ≤ now))

/-- The jobs of a table with their ids. -/
def jobsIn (rows : Rows) : List (ℕ × Job) :=
  rows.filterMap fun row =>
    match row.1, row.2 with
    | .job id, .job job => some (id, job)
    | _, _ => none

/-- `order_by(next_attempt_at, id)`. -/
def due (a b : ℕ × Job) : Prop :=
  a.2.nextAttemptAt < b.2.nextAttemptAt ∨ a.2.nextAttemptAt = b.2.nextAttemptAt ∧ a.1 ≤ b.1

instance : DecidableRel due := fun _ _ => inferInstanceAs (Decidable (_ ∨ _))

/-- `_eligible_query`. -/
def eligibleQuery (now : ℤ) (limit : ℕ) (rows : Rows) : List Key :=
  ((((jobsIn rows).filter fun job => eligible now job.2).insertionSort due).take limit).map
    fun job => .job job.1

def statusesOf (eventId : ℕ) (rows : Rows) : List JobStatus :=
  ((jobsIn rows).filter fun job => job.2.eventId = eventId).map fun job => job.2.status

/-- The status of an event, of the statuses of its jobs. -/
def reconciled (statuses : List JobStatus) (now : ℤ) (event : Event) : Event :=
  if statuses ≠ [] ∧ ∀ status ∈ statuses, status = .sent then
    { event with status := .sent, sentAt := some now }
  else if .dead ∈ statuses then { event with status := .failed, sentAt := some now }
  else { event with status := .pending, sentAt := none }

/-- `_reconcile_event`. -/
def reconcileEvent (eventId : ℕ) (now : ℤ) (next : Code) : Code :=
  .lock (.event eventId) fun row =>
    match row with
    | none => next
    | some _ => .read fun rows =>
        .write (.event eventId) (updateEvent (reconciled (statusesOf eventId rows) now)) next

def reconcileEvents (now : ℤ) (next : Code) : List ℕ → Code
  | [] => next
  | eventId :: rest => reconcileEvent eventId now (reconcileEvents now next rest)

/-- `DeliveryClaim`. -/
structure DeliveryClaim where
  jobId : ℕ
  eventId : ℕ
  channel : Channel
  token : String
  attemptCount : ℕ
  deriving DecidableEq, Repr

def abandoned (now : ℤ) (job : Job) : Job :=
  { job with
    status := .dead, leaseToken := none, leaseExpiresAt := none
    lastErrorType := some "LEASE_EXPIRED", updatedAt := now }

def leasedJob (now leaseSeconds : ℤ) (token : String) (attemptCount : ℕ) (job : Job) : Job :=
  { job with
    status := .leased, leaseToken := some token, leaseExpiresAt := some (now + leaseSeconds)
    attemptCount := attemptCount, updatedAt := now }

/-- The loop over the locked rows: `tokens` gives each claim its own. -/
def claimRows (now leaseSeconds : ℤ) (tokens : ℕ → String)
    (next : List DeliveryClaim → List Entry → Code) :
    List (ℕ × Job) → List DeliveryClaim → List ℕ → List Entry → Code
  | [], claims, expired, entries => reconcileEvents now (next claims entries) expired.dedup
  | (id, job) :: rows, claims, expired, entries =>
    if job.attemptCount ≥ maxAttempts then
      .write (.job id) (updateJob (abandoned now))
        (claimRows now leaseSeconds tokens next rows claims (expired ++ [job.eventId])
          (entries ++ [.expired id now]))
    else
      .write (.job id)
        (updateJob (leasedJob now leaseSeconds (tokens id) (job.attemptCount + 1)))
        (claimRows now leaseSeconds tokens next rows
          (claims ++ [⟨id, job.eventId, job.channel, tokens id, job.attemptCount + 1⟩]) expired
          (entries ++ [.claimed id (tokens id) now]))

/-- `claim_delivery_jobs`, and the caller's commit; bounds out of range raise. -/
def claimDeliveryJobs (now : ℤ) (limit : ℕ) (leaseSeconds : ℤ) (tokens : ℕ → String)
    (next : List DeliveryClaim → Code) : Code :=
  if ¬ (1 ≤ limit ∧ limit ≤ 100) ∨ ¬ (30 ≤ leaseSeconds ∧ leaseSeconds ≤ 300) then .rollback .done
  else
    .lockFree (eligibleQuery now limit) fun rows =>
      claimRows now leaseSeconds tokens (fun claims entries => .commit entries (next claims))
        (jobsIn rows) [] [] []

/-! ### Completions -/

/-- The job after a completion with its lease. -/
def completedJob (success : Bool) (now : ℤ) (deadReason : Option String) (job : Job) : Job :=
  let released := { job with leaseToken := none, leaseExpiresAt := none, updatedAt := now }
  if success then { released with status := .sent, lastErrorType := none }
  else if deadReason.isSome ∨ job.attemptCount ≥ maxAttempts then
    { released with
      status := .dead
      lastErrorType := some (if deadReason.any (· ≠ "") then deadReason.getD ""
        else "RETRY_EXHAUSTED") }
  else
    { released with
      status := .pending
      nextAttemptAt := now + min 900 (15 * 2 ^ (job.attemptCount - 1))
      lastErrorType := some "DELIVERY_NOT_ACCEPTED" }

/-- The row has the lease this token is of. -/
def holdsLease (token : String) (job : Job) : Bool :=
  job.status = .leased && job.leaseToken = some token

/-- `complete_delivery_job`, and the caller's commit. -/
def completeDeliveryJob (jobId : ℕ) (token : String) (success : Bool) (now : ℤ)
    (deadReason : Option String) (next : Code) : Code :=
  .lock (.job jobId) fun row =>
    match row with
    | some (.job job) =>
      if holdsLease token job = false then .commit [] next
      else
        .read fun rows =>
          if (jobAt jobId rows).any (holdsLease token) then
            .write (.job jobId) (updateJob (completedJob success now deadReason))
              (reconcileEvent job.eventId now (.commit [.completed jobId token] next))
          else .commit [] next
    | _ => .commit [] next

/-! ### Draining -/

/-- What there is to send for a claim: `none` where the configuration has changed since the job
was made, else whether there is anybody to send it to. -/
def prepared (claim : DeliveryClaim) (rows : Rows) : Option Bool :=
  match jobAt claim.jobId rows, eventAt claim.eventId rows, configOf rows with
  | some job, some _, some config =>
    if config.updatedAt ≠ job.configUpdatedAt then none
    else
      match claim.channel with
      | .email =>
        if config.emailEnabled && config.emailRecipients.getD [] ≠ [] then
          some ((config.emailRecipients.getD []).any (strip · ≠ ""))
        else none
      | .webhook =>
        if config.webhookEnabled && config.webhookUrl.any (· ≠ "") then some true else none
  | _, _, _ => none

/-- The loop over the claims. `answers` says what each transport answers. -/
def deliver (now : ℤ) (answers : ℕ → Bool) : List DeliveryClaim → Code
  | [] => .done
  | claim :: claims =>
    .read fun rows =>
      .rollback (completeDeliveryJob claim.jobId claim.token
        ((prepared claim rows).getD false && answers claim.jobId) now
        (if prepared claim rows = none then some "CONFIG_CHANGED" else none)
        (deliver now answers claims))

/-- `drain_outbox_once`. -/
def drainOutboxOnce (now : ℤ) (limit : ℕ) (tokens : ℕ → String) (answers : ℕ → Bool) : Code :=
  claimDeliveryJobs now limit 60 tokens (deliver now answers)

inductive Request where
  | configure (change : Config → Config) (now : ℤ)
  | record (category : Category) (eventId : ℕ) (jobIds : Channel → ℕ) (now : ℤ)
  | claim (now : ℤ) (limit : ℕ) (leaseSeconds : ℤ) (tokens : ℕ → String)
  | complete (jobId : ℕ) (token : String) (success : Bool) (now : ℤ) (deadReason : Option String)
  | drain (now : ℤ) (limit : ℕ) (tokens : ℕ → String) (answers : ℕ → Bool)

def serve : Request → Code
  | .configure change now => updateConfiguration change now
  | .record category eventId jobIds now => recordEvent category eventId jobIds now
  | .claim now limit leaseSeconds tokens =>
    claimDeliveryJobs now limit leaseSeconds tokens fun _ => .done
  | .complete jobId token success now deadReason =>
    completeDeliveryJob jobId token success now deadReason .done
  | .drain now limit tokens answers => drainOutboxOnce now limit tokens answers

abbrev State := System Key Row Unit Entry

/-- Empty tables. -/
def State.initial : State := { memory := () }

end Notifications
