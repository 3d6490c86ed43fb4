import DataRelay.Lib.ReadCommitted

/-! Backfill jobs: start, cancel, the worker and the startup reconciliation, as sessions on the
job rows. A session has a copy of a job from its first load in a transaction on; a later query in
the same transaction, also a locking one, finds the copy. The stream's lock is an advisory one. -/
namespace Backfill
open ReadCommitted

inductive Status where
  | pending
  | running
  | cancelling
  | cancelled
  | completed
  | failed
  deriving DecidableEq, Repr

/-- `status in ("RUNNING", "CANCELLING")`. -/
def Status.active : Status → Bool
  | .running => true
  | .cancelling => true
  | _ => false

def Status.terminal : Status → Bool
  | .completed => true
  | .failed => true
  | .cancelled => true
  | _ => false

/-- The time window of `runtime_options_json`, as it parses. -/
inductive Window where
  | missing
  | invalid (error : String)
  | times (startTime endTime : ℤ)
  deriving DecidableEq, Repr

structure Options where
  window : Window := .missing
  dryRunComplete : Bool := false
  deriving DecidableEq, Repr

/-- `BackfillJob`, without its progress and delivery summary. -/
structure Job where
  streamId : ℕ
  status : Status := .pending
  startedAt : Option ℤ := none
  completedAt : Option ℤ := none
  failedAt : Option ℤ := none
  errorSummary : Option String := none
  options : Options := {}
  deriving DecidableEq, Repr

/-- A job's row, or the advisory lock of a stream. -/
inductive Key where
  | job (id : ℕ)
  | stream (id : ℕ)
  deriving DecidableEq, Repr

/-- A status that was written: what the session's copy said, and what it wrote. -/
structure Change where
  job : ℕ
  seen : Option Status
  new : Status
  deriving DecidableEq, Repr

/-- `BackfillRuntimeCoordinator` of one process. -/
structure Coordinator where
  owned : List ℕ := []
  cancelRequested : List ℕ := []
  deriving DecidableEq, Repr

/-- The coordinators of the processes. -/
abbrev Memory := ℕ → Coordinator

abbrev Rows := Table Key Job

abbrev Code := Program Key Job Memory Change

def jobAt (id : ℕ) (rows : Rows) : Option Job := Dict.get? (.job id) rows

/-! ### The coordinator -/

namespace Coordinator

variable (c : Coordinator) (jobId : ℕ)

def clearJobSession : Coordinator where
  owned := c.owned.erase jobId
  cancelRequested := c.cancelRequested.erase jobId

def claimJobOwner : Coordinator :=
  if jobId ∈ c.owned then c else { c with owned := jobId :: c.owned }

def releaseJobOwner : Coordinator := { c with owned := c.owned.erase jobId }

def requestCancel : Coordinator :=
  if jobId ∈ c.cancelRequested then c else { c with cancelRequested := jobId :: c.cancelRequested }

end Coordinator

def onCoordinator (process : ℕ) (f : Coordinator → Coordinator) (next : Coordinator → Code) :
    Code :=
  .memory (fun m => Function.update m process (f (m process))) fun m => next (m process)

def isJobOwned (process jobId : ℕ) (next : Bool → Code) : Code :=
  onCoordinator process (fun c => c) fun c => next (jobId ∈ c.owned)

def isCancelRequested (process jobId : ℕ) (next : Bool → Code) : Code :=
  onCoordinator process (fun c => c) fun c => next (jobId ∈ c.cancelRequested)

def clearJobSession (process jobId : ℕ) (next : Code) : Code :=
  onCoordinator process (·.clearJobSession jobId) fun _ => next

/-! ### The repository -/

/-- `get_backfill_job`: the copy the session has, else the row. -/
def getBackfillJob (copy : Option Job) (id : ℕ) (next : Option Job → Code) : Code :=
  match copy with
  | some job => next (some job)
  | none => .read fun rows => next (jobAt id rows)

/-- `get_backfill_job_for_update`: the row is locked, and the copy is found. -/
def getBackfillJobForUpdate (copy : Option Job) (id : ℕ) (next : Option Job → Code) : Code :=
  .lock (.job id) fun row => next (row.map fun job => copy.getD job)

/-- `count_active_backfills_on_stream`, without the given job. -/
def activeOnStream (streamId exclude : ℕ) (rows : Rows) : ℕ :=
  rows.countP fun row => row.2.streamId = streamId && row.2.status.active && row.1 ≠ .job exclude

/-- `list_active_backfill_jobs`. -/
def activeJobs (rows : Rows) : List (ℕ × Job) :=
  (rows.filterMap fun row =>
    match row.1 with
    | .job id => if row.2.status.active then some (id, row.2) else none
    | .stream _ => none).insertionSort fun a b => a.1 ≤ b.1

/-- The changed columns of a copy are flushed and committed. -/
def saveStatus (id : ℕ) (copy : Job) (new : Status) (f : Job → Job) (next : Code) : Code :=
  .write (.job id) (Option.map fun row => { f row with status := new })
    (.commit [⟨id, some copy.status, new⟩] next)

/-- `emit_event`. -/
def emitEvent (next : Code) : Code := .commit [] next

/-- The time of completion, unless the copy has one. -/
def completedOnce (copy : Job) (now : ℤ) (row : Job) : Job :=
  if copy.completedAt = none then { row with completedAt := some now } else row

/-! ### The worker -/

/-- `_cancel_terminal`. -/
def cancelTerminal (process id : ℕ) (now : ℤ) (copy : Option Job) (next : Code) : Code :=
  getBackfillJob copy id fun
    | none => next
    | some job =>
      if job.status.active = false then next
      else saveStatus id job .cancelled (completedOnce job now)
        (emitEvent (clearJobSession process id next))

/-- `_fail_job`. -/
def failJob (id : ℕ) (now : ℤ) (copy : Option Job) (message : String) (next : Code) : Code :=
  getBackfillJob copy id fun
    | none => next
    | some job =>
      if job.status.active = false then next
      else saveStatus id job .failed
        (fun row => { row with failedAt := some now, errorSummary := some (message.take 8000).toString })
        (emitEvent next)

/-- What the stream runner makes of a replay. -/
inductive Replayed where
  | contextError (message : String)
  | raised (message : String)
  | finished (outcome : String)
  deriving DecidableEq, Repr

/-- The end of `run_replay_job`, with a copy of the job that says it is running. -/
def completeReplay (id : ℕ) (now : ℤ) (outcome : String) (copy : Job) (next : Code) : Code :=
  if outcome = "skipped_lock" then
    saveStatus id copy .failed
      (fun row => { row with
        failedAt := some now, errorSummary := some "Stream lock held; replay did not run" })
      (emitEvent next)
  else
    saveStatus id copy .completed
      (fun row => { row with completedAt := some now, errorSummary := none }) (emitEvent next)

/-- After the stream runner came back. -/
def afterReplay (process id : ℕ) (now : ℤ) (outcome : String) (next : Code) : Code :=
  isCancelRequested process id fun requested =>
    if requested then cancelTerminal process id now none next
    else
      getBackfillJob none id fun
        | none => next
        | some job =>
          isCancelRequested process id fun requested =>
            if job.status = .cancelling || requested then
              cancelTerminal process id now (some job) next
            else if job.status ≠ .running then next
            else completeReplay id now outcome job next

/-- `run_replay_job`. The stream runner commits, so the session has no copy after it. -/
def runReplayJob (process id : ℕ) (now : ℤ) (replayed : Replayed) (copy : Option Job)
    (next : Code) : Code :=
  getBackfillJob copy id fun
    | none => next
    | some job =>
      if job.status.active = false then next
      else
        isCancelRequested process id fun requested =>
          if requested || job.status = .cancelling then
            cancelTerminal process id now (some job) next
          else
            match job.options.window with
            | .missing => failJob id now (some job) "invalid backfill window: 'start_time'" next
            | .invalid error =>
              failJob id now (some job) ("invalid backfill window: " ++ error) next
            | .times startTime endTime =>
              if startTime ≥ endTime then
                failJob id now (some job) "start_time must be before end_time" next
              else
                emitEvent
                  (match replayed with
                  | .contextError message => failJob id now none message next
                  | .raised message => failJob id now none message next
                  | .finished outcome => afterReplay process id now outcome next)

/-- `run_dry_lifecycle`. -/
def runDryLifecycle (process id : ℕ) (now : ℤ) (copy : Option Job) (next : Code) : Code :=
  getBackfillJob copy id fun
    | none => next
    | some job =>
      if job.status.active = false then next
      else
        isCancelRequested process id fun requested =>
          if requested || job.status = .cancelling then
            cancelTerminal process id now (some job) next
          else
            emitEvent (emitEvent (emitEvent
              (getBackfillJob none id fun
                | none => next
                | some job =>
                  isCancelRequested process id fun requested =>
                    if job.status = .cancelling || requested then
                      cancelTerminal process id now (some job) next
                    else if job.status ≠ .running then next
                    else if job.options.dryRunComplete then
                      saveStatus id job .completed (fun row => { row with completedAt := some now })
                        (emitEvent next)
                    -- only the progress is saved
                    else .write (.job id) (fun row => row) (.commit [] next))))

/-- `BackfillWorker.start_job`. -/
def startJob (process id : ℕ) (now : ℤ) (replayed : Replayed) (copy : Option Job) (next : Code) :
    Code :=
  onCoordinator process (·.claimJobOwner id) fun c =>
    if id ∈ c.owned then next
    else
      let release := onCoordinator process (·.releaseJobOwner id) fun _ => next
      getBackfillJob copy id fun
        | none => release
        | some job =>
          if job.options.window = .missing then runDryLifecycle process id now (some job) release
          else runReplayJob process id now replayed (some job) release

/-! ### The service -/

/-- `start_backfill_job`. -/
def startBackfillJob (process id : ℕ) (now : ℤ) (replayed : Replayed) (copy : Option Job) : Code :=
  getBackfillJob copy id fun
    | none => .done
    | some probe =>
      .hold (.stream probe.streamId)
        (getBackfillJobForUpdate (some probe) id fun
          | none => .rollback .done
          | some job =>
            if job.status ≠ .pending then .rollback .done
            else
              .read fun rows =>
                if activeOnStream probe.streamId id rows > 0 then .commit [] .done
                else
                  saveStatus id job .running
                    (fun row => if job.startedAt = none then { row with startedAt := some now }
                      else row)
                    (.read fun rows => startJob process id now replayed (jobAt id rows) .done))

/-- `_finalize_cancelling_without_owner`. -/
def finalizeCancellingWithoutOwner (process id streamId : ℕ) (now : ℤ) (copy : Option Job) : Code :=
  .hold (.stream streamId)
    (getBackfillJobForUpdate copy id fun
      | none => .rollback .done
      | some job =>
        if job.status ≠ .cancelling then .rollback .done
        else
          isJobOwned process id fun owned =>
            if owned then .rollback .done
            else saveStatus id job .cancelled (completedOnce job now)
              (clearJobSession process id .done))

/-- `cancel_backfill_job`. -/
def cancelBackfillJob (process id : ℕ) (now : ℤ) : Code :=
  getBackfillJob none id fun
    | none => .done
    | some probe =>
      match probe.status with
      | .pending =>
        .hold (.stream probe.streamId)
          (getBackfillJobForUpdate (some probe) id fun
            | none => .rollback .done
            | some job =>
              if job.status ≠ .pending then .rollback .done
              else saveStatus id job .cancelled (fun row => row) (clearJobSession process id .done))
      | .running =>
        .hold (.stream probe.streamId)
          (getBackfillJobForUpdate (some probe) id fun
            | none => .rollback .done
            | some job =>
              if job.status ≠ .running then .rollback .done
              else
                onCoordinator process (·.requestCancel id) fun _ =>
                  saveStatus id job .cancelling (fun row => row)
                    (.read fun rows =>
                      isJobOwned process id fun owned =>
                        if owned then .done
                        else finalizeCancellingWithoutOwner process id probe.streamId now
                          (jobAt id rows)))
      | .cancelling =>
        onCoordinator process (·.requestCancel id) fun _ =>
          isJobOwned process id fun owned =>
            if owned then .done
            else finalizeCancellingWithoutOwner process id probe.streamId now (some probe)
      | _ => .done

/-- One job of `reconcile_orphaned_backfill_jobs`, of which the session has a copy. `kept` goes
on in the same transaction, `ended` in the next one. -/
def reconcileJob (process id : ℕ) (now : ℤ) (message : String) (probe : Job) (kept ended : Code) :
    Code :=
  isJobOwned process id fun owned =>
    if owned then kept
    else
      .hold (.stream probe.streamId)
        (getBackfillJobForUpdate (some probe) id fun
          | none => .rollback ended
          | some job =>
            if job.status.active = false then .rollback ended
            else
              isJobOwned process id fun owned =>
                if owned then .rollback ended
                else if job.status = .running then
                  saveStatus id job .failed
                    (fun row => { row with failedAt := some now, errorSummary := some message })
                    (clearJobSession process id ended)
                else
                  saveStatus id job .cancelled (completedOnce job now)
                    (clearJobSession process id ended))

/-- The loop over the probes; the end of a transaction expires their copies, and a row that is
gone then raises. -/
def reconcileJobs (process : ℕ) (now : ℤ) (message : String) : Bool → List (ℕ × Job) → Code
  | _, [] => .done
  | true, (id, probe) :: rest =>
    reconcileJob process id now message probe (reconcileJobs process now message true rest)
      (reconcileJobs process now message false rest)
  | false, (id, _) :: rest =>
    .read fun rows =>
      match jobAt id rows with
      | none => .done
      | some probe =>
        reconcileJob process id now message probe (reconcileJobs process now message false rest)
          (reconcileJobs process now message false rest)

def ownershipLost : String :=
  "Backfill ownership lost after process restart; job was not resumed " ++
    "(fail-closed: exact replay position cannot be guaranteed)"

/-- `reconcile_orphaned_backfill_jobs`. -/
def reconcileOrphanedBackfillJobs (process : ℕ) (now : ℤ) : Code :=
  .read fun rows => reconcileJobs process now ownershipLost true (activeJobs rows)

/-- `create_backfill_job`; the id is the one the sequence gives. -/
def createBackfillJob (id streamId : ℕ) (options : Options) (next : Code) : Code :=
  .insert (.job id) { streamId := streamId, options := options }
    (.commit [⟨id, none, .pending⟩] (.commit [] next))

/-- `replay_stream_backfill`: the start finds the copy of the refresh. -/
def replayStreamBackfill (process id streamId : ℕ) (options : Options) (now : ℤ)
    (replayed : Replayed) : Code :=
  createBackfillJob id streamId options
    (.read fun rows => startBackfillJob process id now replayed (jobAt id rows))

inductive Request where
  | create (id streamId : ℕ) (options : Options)
  | replay (process id streamId : ℕ) (options : Options) (now : ℤ) (replayed : Replayed)
  | start (process id : ℕ) (now : ℤ) (replayed : Replayed)
  | cancel (process id : ℕ) (now : ℤ)
  | reconcile (process : ℕ) (now : ℤ)
  | restart (process : ℕ)

def serve : Request → Code
  | .create id streamId options => createBackfillJob id streamId options .done
  | .replay process id streamId options now replayed =>
    replayStreamBackfill process id streamId options now replayed
  | .start process id now replayed => startBackfillJob process id now replayed none
  | .cancel process id now => cancelBackfillJob process id now
  | .reconcile process now => reconcileOrphanedBackfillJobs process now
  | .restart process => onCoordinator process (fun _ => {}) fun _ => .done

abbrev State := System Key Job Memory Change

def State.initial : State := { memory := fun _ => {} }

end Backfill
