import DataRelay.Lib.PyText
import DataRelay.Lib.Steps
import DataRelay.Logs.Partitions

/-! Retention of `delivery_logs`: whole months are dropped with their partitions where that is
enabled, and what is left of the rows before the cutoff is deleted in batches. The drops and every
batch are committed by themselves, so a run that fails later has taken rows out. -/
namespace Retention

/-! ### The guard -/

structure Settings where
  appEnv : Option String
  destructiveActionsEnabled : Bool
  productionDeletesEnabled : Bool
  automaticDeletesEnabled : Bool
  partitionDropEnabled : Bool
  deliveryLogRetentionDays : Option ℤ
  deriving DecidableEq

/-- `AUTOMATIC_RETENTION_TRIGGERS`. -/
def automaticRetentionTriggers : List String := ["scheduler", "supplement_scheduler"]

structure Decision where
  allowed : Bool
  reason : String
  deriving DecidableEq

/-- `retention_execution_decision`. -/
def executionDecision (S : Settings) (trigger : String) : Decision :=
  let isProduction := PyText.lower (PyText.strip (S.appEnv.getD "")) = "production"
  let isAutomatic := trigger ∈ automaticRetentionTriggers
  if S.destructiveActionsEnabled = false then
    ⟨false, "retention destructive actions are disabled by default."⟩
  else if isProduction ∧ S.productionDeletesEnabled = false then
    ⟨false, "production retention deletes require explicit production enablement."⟩
  else if isAutomatic ∧ isProduction then
    ⟨false, "automatic retention deletes are forbidden in production; " ++
      "use manual dry-run and explicit execution."⟩
  else if isAutomatic ∧ S.automaticDeletesEnabled = false then
    ⟨false, "automatic retention deletes require explicit scheduler enablement."⟩
  else ⟨true, "retention destructive actions enabled."⟩

/-- The fields of `PlatformRetentionPolicy` a run over `delivery_logs` reads. -/
structure Policy where
  logsEnabled : Bool
  logsRetentionDays : ℤ
  cleanupBatchSize : Option ℤ
  deriving DecidableEq

/-- `effective_retention_policies(row)["delivery_logs_days"]`. -/
def deliveryLogsDays (S : Settings) (P : Policy) : ℤ :=
  max 1 (S.deliveryLogRetentionDays.getD P.logsRetentionDays)

/-- `_batch_size`: no size and zero are the default. -/
def Policy.batchSize (P : Policy) : ℕ :=
  (max 100 (if P.cleanupBatchSize.getD 0 = 0 then 5000 else P.cleanupBatchSize.getD 0)).toNat

/-! ### Batches -/

/-- `_MAX_BATCH_ITERATIONS`. -/
def maxBatchIterations : ℕ := 200

/-- `time_column < cutoff`. -/
def older (cutoff : UtcTime) (r : LogRow) : Bool := r.createdAt < cutoff

/-- The size of the next batch. -/
def room (batchSize : ℕ) (cap : Option ℕ) (total : ℕ) : ℕ :=
  cap.elim (max 1 batchSize) fun c => min (max 1 batchSize) (c - total)

/-- What one turn of the loop of `_delete_batches` comes to. -/
inductive Turn where
  | capped
  /-- The batch was not full. -/
  | finished (deleted : ℕ) (rows : List LogRow)
  | goesOn (deleted : ℕ) (rows : List LogRow)

def deleteBatch (cutoff : UtcTime) (batchSize : ℕ) (cap : Option ℕ) (total : ℕ)
    (rows : List LogRow) : Turn :=
  if cap.any (· ≤ total) then .capped
  else
    let room := room batchSize cap total
    let deleted := OldestFirst.taken LogRow.id (older cutoff) room rows
    let rest := OldestFirst.rest LogRow.id (older cutoff) room rows
    if deleted < room then .finished deleted rest else .goesOn deleted rest

/-- `_delete_batches`, from a turn on: how many rows it deleted, whether more are left, and the rows
after it. After so many `commits` the database refuses the next statement. -/
def deleteBatches (cutoff : UtcTime) (batchSize : ℕ) (cap : Option ℕ) :
    (turns : ℕ) → (commits : Option ℕ) → (total : ℕ) → List LogRow →
      Except Fault (ℕ × Bool) × List LogRow
  | 0, commits, total, rows =>
    if commits = some 0 then (.error .database, rows)
    else (.ok (total, rows.any (older cutoff)), rows)
  | turns + 1, commits, total, rows =>
    if commits = some 0 then (.error .database, rows)
    else
      match deleteBatch cutoff batchSize cap total rows with
      | .capped => (.ok (total, rows.any (older cutoff)), rows)
      | .finished deleted rest => (.ok (total + deleted, false), rest)
      | .goesOn deleted rest =>
        deleteBatches cutoff batchSize cap turns (commits.map (· - 1)) (total + deleted) rest

/-- `batch_delete_by_time_before` without a cap of its own: the rows that matched, the rows deleted,
and the rows left. A table that is large is not counted, and the catalog has an estimate. -/
def batchDeleteByTimeBefore (cutoff : UtcTime) (batchSize : ℕ) (dryRun : Bool)
    (estimated commits : Option ℕ) (rows : List LogRow) : Except Fault (ℕ × ℕ) × List LogRow :=
  if commits = some 0 then (.error .database, rows)
  else
    match estimated with
    | some n =>
      if dryRun then (.ok (n, 0), rows)
      else
        let (done, rest) := deleteBatches cutoff batchSize none maxBatchIterations commits 0 rows
        (done.map fun (deleted, more) => (deleted + if more then 1 else 0, deleted), rest)
    | none =>
      let matched := rows.countP (older cutoff)
      if dryRun ∨ matched = 0 then (.ok (matched, 0), rows)
      else
        let (done, rest) :=
          deleteBatches cutoff batchSize (some matched) maxBatchIterations commits 0 rows
        (done.map fun (deleted, _) => (matched, deleted), rest)

/-! ### A run over `delivery_logs` -/

inductive RunStatus where
  | ok
  | skipped
  | error
  deriving DecidableEq, Repr

/-- `RetentionRunTableOutcome`. -/
structure RunOutcome where
  status : RunStatus
  matchedCount : ℕ
  deletedCount : ℕ
  retentionDays : ℤ
  message : String
  partitionDropTargets : List DropTarget := []
  deriving DecidableEq

/-- What a run is asked to do, and the catalog it meets. -/
structure Run where
  settings : Settings
  policy : Policy
  dryRun : Bool
  trigger : String
  /-- `reltuples` of the partitions that are large. -/
  estimate : String → Option ℕ := fun _ => none
  /-- The rows that are due by the catalog, when the whole table is large. -/
  estimated : Option ℕ := none
  /-- How many transactions it commits before the database refuses a statement, if it does. -/
  commits : Option ℕ := none

namespace Run

variable (R : Run)

def days : ℤ := deliveryLogsDays R.settings R.policy

def decision : Decision := executionDecision R.settings R.trigger

def effectiveDryRun : Bool := R.dryRun || !R.decision.allowed

/-- The run may delete rows. -/
def Executes : Prop := R.policy.logsEnabled = true ∧ R.effectiveDryRun = false

instance : Decidable R.Executes := inferInstanceAs (Decidable (_ ∧ _))

/-- `_append`: a run that is not allowed to delete reports that it was skipped. -/
def append (status : RunStatus) (matched deleted : ℕ) (message : String)
    (targets : List DropTarget := []) : RunOutcome :=
  if !R.dryRun && !R.decision.allowed then
    ⟨.skipped, matched, 0, R.days, "retention execution skipped: " ++ R.decision.reason, targets⟩
  else ⟨status, matched, deleted, R.days, message, targets⟩

def okMessage (matched deleted dropped : ℕ) : String :=
  if R.effectiveDryRun then "dry_run matched=" ++ toString matched
  else "matched=" ++ toString matched ++ ", deleted=" ++ toString deleted ++
    ", partition_dropped_rows=" ++ toString dropped

def dropsPartitions (targets : List DropTarget) : Bool :=
  R.settings.partitionDropEnabled && !R.effectiveDryRun && !targets.isEmpty

/-- The drops, which are committed before the first batch. -/
def dropDue (D : Decimals) (targets : List DropTarget) (targetNow : UtcTime) (T : LogTable) :
    Except Fault (LogTable × ℕ) :=
  if R.dropsPartitions targets then dropPartitions D T targets targetNow else .ok (T, 0)

/-- The targets, and the table with the rows counted once they are dropped and that is committed. -/
def dropTargets (D : Decimals) (targetNow : UtcTime) (T : LogTable) :
    Except Fault (List DropTarget × LogTable × ℕ) :=
  if R.commits = some 0 then .error .database
  else do
    let targets ← calculateDropTargets D T R.estimate R.days targetNow
    let (U, dropped) ← R.dropDue D targets targetNow T
    .ok (targets, U, dropped)

/-- What is left of `commits` after the drops. -/
def commitsLeft (targets : List DropTarget) : Option ℕ :=
  if R.dropsPartitions targets then R.commits.map (· - 1) else R.commits

/-- The part of the branch that is under `try`, from the targets on: what is raised is rolled back
up to the last commit. -/
def deleteRows (D : Decimals) (cutoff targetNow : UtcTime) (T : LogTable) :
    Except Fault RunOutcome × LogTable :=
  match R.dropTargets D targetNow T with
  | .error fault => (.error fault, T)
  | .ok (targets, U, dropped) =>
    let (done, rows) := batchDeleteByTimeBefore cutoff R.policy.batchSize R.effectiveDryRun
      R.estimated (R.commitsLeft targets) U.rows
    (done.map fun (found, deleted) => R.append .ok found (deleted + dropped)
      (R.okMessage found deleted dropped) targets, { U with rows })

/-- What `str` makes of a fault. -/
def faultText : Fault → String
  | .valueError text => text
  | _ => ""

/-- The `delivery_logs` branch of `run_operational_retention`. The clock is read for the cutoff and
read again for the targets. A cutoff there is no time for is not caught. -/
def deliveryLogs (D : Decimals) (now targetNow : UtcTime) (T : LogTable) :
    Except Fault (RunOutcome × LogTable) := do
  let cutoff ← retentionCutoff now R.days
  if R.policy.logsEnabled = false then
    .ok (R.append .skipped 0 0 "delivery_logs retention disabled (logs_enabled=false).", T)
  else if !R.dryRun && !R.decision.allowed && R.trigger ∈ automaticRetentionTriggers then
    .ok (R.append .skipped 0 0
      ("retention execution skipped without preview count: " ++ R.decision.reason), T)
  else
    match R.deleteRows D cutoff targetNow T with
    | (.ok outcome, T') => .ok (outcome, T')
    | (.error fault, T') => .ok (R.append .error 0 0 (faultText fault), T')

end Run

/-! ### Batches delete the oldest rows -/

section Batches

variable {cutoff : UtcTime} {batchSize : ℕ} {cap : Option ℕ} {rows : List LogRow}

variable (batchSize cap) in
theorem room_pos {total : ℕ} (h : ¬ cap.any (· ≤ total) = true) : 0 < room batchSize cap total := by
  cases cap with
  | none => exact Nat.lt_of_lt_of_le Nat.one_pos (le_max_left _ _)
  | some c =>
    simp only [Option.any_some, decide_eq_true_eq, not_le] at h
    simp only [room, Option.elim_some]
    omega

variable (batchSize cap) in
/-- A full batch is as large as allowed, or fills the cap. -/
theorem room_eq (total : ℕ) : room batchSize cap total = max 1 batchSize ∨
    cap.any (· ≤ total + room batchSize cap total) = true := by
  cases cap with
  | none => exact Or.inl rfl
  | some c =>
    rcases le_total (max 1 batchSize) (c - total) with h | h
    · exact Or.inl (min_eq_left h)
    · refine Or.inr ?_
      rw [show room batchSize (some c) total = c - total from min_eq_right h]
      simp only [Option.any_some, decide_eq_true_eq]
      omega

variable (cutoff batchSize cap) in
/-- A statement the database refuses leaves the rows. -/
theorem deleteBatches_refused (turns total : ℕ) :
    deleteBatches cutoff batchSize cap turns (some 0) total rows = (.error .database, rows) := by
  cases turns <;> rfl

/-- What ends a loop behind a full batch also ends the loop that begins with this batch. -/
theorem ends_of_full {turns total n due : ℕ} (hroom : room batchSize cap total ≤ due)
    (h : n = due - room batchSize cap total ∨
      cap.any (· ≤ total + room batchSize cap total + n) = true ∨ n = turns * max 1 batchSize) :
    room batchSize cap total + n = due ∨
      cap.any (· ≤ total + (room batchSize cap total + n)) = true ∨
      room batchSize cap total + n = (turns + 1) * max 1 batchSize := by
  rw [← Nat.add_assoc]
  rcases h with hall | hcapped | hturns
  · exact Or.inl (by omega)
  · exact Or.inr (Or.inl hcapped)
  · rcases room_eq batchSize cap total with hmax | hmax
    · exact Or.inr (Or.inr (by rw [hmax, hturns, Nat.succ_mul, Nat.add_comm]))
    · refine Or.inr (Or.inl ?_)
      cases cap with
      | none => simp at hmax
      | some c =>
        simp only [Option.any_some, decide_eq_true_eq] at hmax ⊢
        omega

variable (cutoff batchSize cap) in
/-- However the loop ends, it has deleted the oldest rows, and if it ends well without all that are
due then the cap was reached or every turn was taken for a full batch. -/
theorem deleteBatches_spec (hnodup : (rows.map LogRow.id).Nodup) (turns total : ℕ)
    (commits : Option ℕ) :
    ∃ n ≤ (rows.filter (older cutoff)).length,
      (deleteBatches cutoff batchSize cap turns commits total rows).2 =
        OldestFirst.rest LogRow.id (older cutoff) n rows ∧
      (commits = none → ∃ done, (deleteBatches cutoff batchSize cap turns commits total rows).1 =
        .ok done) ∧
      ∀ done, (deleteBatches cutoff batchSize cap turns commits total rows).1 = .ok done →
        done.1 = total + n ∧ (n = (rows.filter (older cutoff)).length ∨
          cap.any (· ≤ total + n) = true ∨ n = turns * max 1 batchSize) := by
  induction turns generalizing total rows commits with
  | zero =>
    refine ⟨0, Nat.zero_le _, ?_, ?_, ?_⟩
    · rw [OldestFirst.rest_zero, deleteBatches]
      split_ifs <;> rfl
    · rintro rfl
      exact ⟨_, rfl⟩
    · intro done hdone
      rw [deleteBatches] at hdone
      split_ifs at hdone
      obtain rfl := Except.ok.inj hdone
      exact ⟨rfl, Or.inr (Or.inr (Nat.zero_mul _).symm)⟩
  | succ turns ih =>
    by_cases hcommits : commits = some 0
    · subst hcommits
      rw [deleteBatches_refused]
      exact ⟨0, Nat.zero_le _, OldestFirst.rest_zero.symm, nofun, nofun⟩
    have htaken := OldestFirst.taken_eq LogRow.id (older cutoff) hnodup
      (room batchSize cap total)
    rw [deleteBatches, if_neg hcommits, deleteBatch]
    by_cases hcap : cap.any (· ≤ total) = true
    · rw [if_pos hcap]
      refine ⟨0, Nat.zero_le _, OldestFirst.rest_zero.symm, fun _ => ⟨_, rfl⟩, ?_⟩
      intro done hdone
      obtain rfl := Except.ok.inj hdone
      exact ⟨rfl, Or.inr (Or.inl hcap)⟩
    · rw [if_neg hcap]
      have hpos := room_pos batchSize cap hcap
      dsimp only
      by_cases hfull : OldestFirst.taken LogRow.id (older cutoff) (room batchSize cap total) rows <
          room batchSize cap total
      · rw [if_pos hfull]
        refine ⟨(rows.filter (older cutoff)).length, le_rfl, ?_, fun _ => ⟨_, rfl⟩, ?_⟩
        · rw [OldestFirst.rest_of_length_le hnodup le_rfl]
          exact OldestFirst.rest_of_length_le hnodup (by omega)
        · intro done hdone
          obtain rfl := Except.ok.inj hdone
          dsimp only
          exact ⟨by omega, Or.inl rfl⟩
      · rw [if_neg hfull]
        have hroom : OldestFirst.taken LogRow.id (older cutoff) (room batchSize cap total) rows =
            room batchSize cap total := by omega
        rw [hroom]
        obtain ⟨n, hn, hrest, hok, hwhy⟩ := ih (OldestFirst.nodup_rest LogRow.id
          (older cutoff) hnodup (room batchSize cap total)) (total + room batchSize cap total)
          (commits.map (· - 1))
        rw [OldestFirst.length_filter_rest hnodup] at hn hwhy
        refine ⟨room batchSize cap total + n, by omega, ?_, fun h => hok (by rw [h]; rfl), ?_⟩
        · rw [← OldestFirst.rest_rest hnodup]
          exact hrest
        · intro done hdone
          obtain ⟨hdeleted, hends⟩ := hwhy done hdone
          exact ⟨by omega, ends_of_full (by omega) hends⟩

variable (cutoff batchSize) in
/-- A delete of everything due takes out the oldest rows, all of them unless it fails or the turns
run out. -/
theorem batchDelete_spec (hnodup : (rows.map LogRow.id).Nodup) (estimated commits : Option ℕ) :
    ∃ n ≤ (rows.filter (older cutoff)).length,
      (batchDeleteByTimeBefore cutoff batchSize false estimated commits rows).2 =
        OldestFirst.rest LogRow.id (older cutoff) n rows ∧
      (commits = none → ∃ done,
        (batchDeleteByTimeBefore cutoff batchSize false estimated commits rows).1 = .ok done) ∧
      ∀ done, (batchDeleteByTimeBefore cutoff batchSize false estimated commits rows).1 = .ok done →
        done.2 = n ∧ (n = (rows.filter (older cutoff)).length ∨
          n = maxBatchIterations * max 1 batchSize) := by
  have hzero : rows = OldestFirst.rest LogRow.id (older cutoff) 0 rows := OldestFirst.rest_zero.symm
  by_cases hcommits : commits = some 0
  · refine ⟨0, Nat.zero_le _, ?_, by simp [hcommits], ?_⟩ <;>
      simp [batchDeleteByTimeBefore, hcommits, ← hzero]
  cases estimated with
  | some estimated =>
    obtain ⟨n, hn, hrest, hok, hwhy⟩ := deleteBatches_spec cutoff batchSize none
      hnodup maxBatchIterations 0 commits
    refine ⟨n, hn, ?_, fun h => ?_, fun done hdone => ?_⟩
    · simpa [batchDeleteByTimeBefore, hcommits] using hrest
    · obtain ⟨done, hdone⟩ := hok h
      simp [batchDeleteByTimeBefore, hcommits, hdone, Except.map]
    · simp only [batchDeleteByTimeBefore, hcommits, Bool.false_eq_true, if_false] at hdone
      obtain ⟨inner, hinner, rfl⟩ := Raising.map_eq_ok hdone
      obtain ⟨hdeleted, hwhy⟩ := hwhy inner hinner
      exact ⟨by simpa using hdeleted, by simpa using hwhy⟩
  | none =>
    have hcount := List.countP_eq_length_filter (p := older cutoff) (l := rows)
    by_cases hnone : rows.countP (older cutoff) = 0
    · refine ⟨0, Nat.zero_le _, ?_, ?_, ?_⟩
      · simp [batchDeleteByTimeBefore, hcommits, hnone, ← hzero]
      · simp [batchDeleteByTimeBefore, hcommits, hnone]
      · intro done hdone
        obtain rfl : (0, 0) = done := by
          simpa [batchDeleteByTimeBefore, hcommits, hnone] using hdone
        exact ⟨rfl, Or.inl (by omega)⟩
    · obtain ⟨n, hn, hrest, hok, hwhy⟩ := deleteBatches_spec cutoff batchSize
        (some (rows.countP (older cutoff))) hnodup maxBatchIterations 0 commits
      refine ⟨n, hn, ?_, fun h => ?_, fun done hdone => ?_⟩
      · simpa [batchDeleteByTimeBefore, hcommits, hnone] using hrest
      · obtain ⟨done, hdone⟩ := hok h
        simp [batchDeleteByTimeBefore, hcommits, hnone, hdone, Except.map]
      · simp only [batchDeleteByTimeBefore, hcommits, hnone, Bool.false_eq_true, or_self,
          if_false] at hdone
        obtain ⟨inner, hinner, rfl⟩ := Raising.map_eq_ok hdone
        obtain ⟨hdeleted, hwhy⟩ := hwhy inner hinner
        refine ⟨by simpa using hdeleted, ?_⟩
        rcases hwhy with hall | hcapped | hturns
        · exact Or.inl hall
        · simp only [Option.any_some, decide_eq_true_eq] at hcapped
          exact Or.inl (by omega)
        · exact Or.inr hturns

end Batches

namespace Run

variable {D : Decimals} {R : Run} {T T' : LogTable} {cutoff now targetNow : UtcTime}
  {o : RunOutcome}

theorem batchSize_pos : 0 < R.policy.batchSize := by
  unfold Policy.batchSize
  omega

variable (cutoff) in
theorem batchDelete_dryRun (estimated commits : Option ℕ) (rows : List LogRow) (batchSize : ℕ) :
    (batchDeleteByTimeBefore cutoff batchSize true estimated commits rows).2 = rows ∧
      ∀ done, (batchDeleteByTimeBefore cutoff batchSize true estimated commits rows).1 = .ok done →
        done.2 = 0 := by
  by_cases hcommits : commits = some 0
  · simp [batchDeleteByTimeBefore, hcommits]
  · cases estimated <;> simp [batchDeleteByTimeBefore, hcommits]

/-- What a run that deletes takes out, whether it ends well or not. -/
structure Takes (R : Run) (T T' : LogTable) (cutoff targetCutoff : UtcTime) : Prop where
  sublist : T'.rows.Sublist T.rows
  /-- A row goes for its time, or with a partition whose month is over. -/
  due : ∀ r ∈ T.rows, r ∉ T'.rows → r.createdAt < cutoff ∨
    R.settings.partitionDropEnabled = true ∧ r.createdAt < targetCutoff.inMonth.first

/-- What a run that deletes and ends well does to the rows. -/
structure Deletes (R : Run) (T T' : LogTable) (cutoff targetCutoff : UtcTime) (deleted : ℕ) : Prop
    extends Takes R T T' cutoff targetCutoff where
  /-- Fewer deletions than the turns have room for are all there were to make. -/
  complete : deleted < maxBatchIterations * R.policy.batchSize →
    ∀ r ∈ T'.rows, cutoff ≤ r.createdAt
  exact : (∀ name, R.estimate name = none) → deleted + T'.rows.length = T.rows.length

/-- The table once the targets are dropped: the rows that went are due, and counted. -/
structure Dropped (R : Run) (D : Decimals) (T U : LogTable) (targetCutoff : UtcTime)
    (dropped : ℕ) : Prop where
  sound : U.Sound D
  sublist : U.rows.Sublist T.rows
  due : ∀ r ∈ T.rows, r ∉ U.rows →
    R.settings.partitionDropEnabled = true ∧ r.createdAt < targetCutoff.inMonth.first
  count : (∀ name, R.estimate name = none) → dropped + U.rows.length = T.rows.length

theorem dropTargets_ok (hT : T.Sound D) {targets : List DropTarget} {U : LogTable} {dropped : ℕ}
    (h : R.dropTargets D targetNow T = .ok (targets, U, dropped)) :
    ∃ targetCutoff, retentionCutoff targetNow R.days = .ok targetCutoff ∧
      R.Dropped D T U targetCutoff dropped ∧
      (R.effectiveDryRun = true → U = T ∧ dropped = 0) := by
  unfold dropTargets at h
  split_ifs at h
  obtain ⟨targets', htargets, h⟩ := Raising.bind_eq_ok h
  obtain ⟨⟨U', dropped'⟩, hdrop, h⟩ := Raising.bind_eq_ok h
  obtain ⟨rfl, rfl, rfl⟩ : targets' = targets ∧ U' = U ∧ dropped' = dropped := by simpa using h
  obtain ⟨targetCutoff, hcutoff, hdue⟩ := due_of_calculate htargets
  obtain ⟨hnodup, hcounts⟩ := nodup_of_calculate hT htargets
  refine ⟨targetCutoff, hcutoff, ?_⟩
  by_cases hdrops : R.dropsPartitions targets' = true
  · obtain ⟨⟨henabled, hexecutes⟩, -⟩ :
        (R.settings.partitionDropEnabled = true ∧ R.effectiveDryRun = false) ∧
          targets'.isEmpty = false := by
      simpa [dropsPartitions] using hdrops
    obtain ⟨protectedMonths, hprotected⟩ : ∃ months, protectedPartitionMonths targetNow =
        .ok months := by
      obtain ⟨_, -, hrest⟩ := Raising.bind_eq_ok htargets
      obtain ⟨months, hmonths, -⟩ := Raising.bind_eq_ok hrest
      exact ⟨months, hmonths⟩
    rw [dropDue, if_pos hdrops,
      dropPartitions_ok hdue (retentionCutoff_ok hcutoff).le hprotected T] at hdrop
    obtain ⟨rfl, rfl⟩ := Prod.mk.inj (Except.ok.inj hdrop)
    obtain ⟨hgone, hcount⟩ := dropped_rows hT hdue hnodup hcounts
    refine ⟨⟨hT.dropTables _, ?_, fun r hr hr' => ⟨henabled, hgone r hr hr'⟩, hcount⟩, ?_⟩
    · rw [LogTable.dropTables_rows]
      exact List.filter_sublist
    · rw [hexecutes]
      exact fun hdry => by cases hdry
  · rw [dropDue, if_neg hdrops] at hdrop
    obtain ⟨rfl, rfl⟩ := Prod.mk.inj (Except.ok.inj hdrop)
    exact ⟨⟨hT, List.Sublist.refl _, fun r hr hr' => absurd hr hr', fun _ => Nat.zero_add _⟩,
      fun _ => ⟨rfl, rfl⟩⟩

/-- What the batches take after the drops. -/
theorem takes_of_batches {U : LogTable} {targetCutoff : UtcTime} {dropped : ℕ}
    (hU : R.Dropped D T U targetCutoff dropped) {n : ℕ} {rows : List LogRow}
    (hrest : rows = OldestFirst.rest LogRow.id (older cutoff) n U.rows) :
    R.Takes T { U with rows } cutoff targetCutoff := by
  subst hrest
  refine ⟨List.filter_sublist.trans hU.sublist, fun r hr hgone => ?_⟩
  dsimp only at hgone
  by_cases hrU : r ∈ U.rows
  · rw [OldestFirst.mem_rest_iff hU.sound.ids] at hgone
    have hbatch : r ∈ OldestFirst.batch (older cutoff) n U.rows := by
      by_contra hnot
      exact hgone ⟨hrU, hnot⟩
    have holder := (OldestFirst.mem_of_mem_batch hbatch).2
    exact Or.inl (by simpa [older] using holder)
  · exact Or.inr (hU.due r hr hrU)

theorem deletes_of_batches {U : LogTable} {targetCutoff : UtcTime} {dropped : ℕ}
    (hU : R.Dropped D T U targetCutoff dropped) {n : ℕ}
    (hn : n ≤ (U.rows.filter (older cutoff)).length) {rows : List LogRow}
    (hrest : rows = OldestFirst.rest LogRow.id (older cutoff) n U.rows)
    (hwhy : n = (U.rows.filter (older cutoff)).length ∨
      n = maxBatchIterations * max 1 R.policy.batchSize) :
    R.Deletes T { U with rows } cutoff targetCutoff (n + dropped) := by
  have hpos : max 1 R.policy.batchSize = R.policy.batchSize := max_eq_right batchSize_pos
  rw [hpos] at hwhy
  refine ⟨takes_of_batches hU hrest, ?_, ?_⟩
  · dsimp only
    rw [hrest]
    intro hfew r hr
    have hall : n = (U.rows.filter (older cutoff)).length := by omega
    rw [OldestFirst.rest_of_length_le hU.sound.ids hall.ge] at hr
    simpa [older] using (List.mem_filter.1 hr).2
  · dsimp only
    intro hnone
    have hcounted := hU.count hnone
    have htaken := OldestFirst.taken_eq LogRow.id (older cutoff) hU.sound.ids n
    have hlength := OldestFirst.taken_add_length_rest LogRow.id (older cutoff) U.rows n
    rw [hrest]
    omega

theorem append_of_not_dryRun (h : R.effectiveDryRun = false) (status : RunStatus)
    (matched deleted : ℕ) (message : String) (targets : List DropTarget) :
    R.append status matched deleted message targets =
      ⟨status, matched, deleted, R.days, message, targets⟩ := by
  simp only [effectiveDryRun, Bool.or_eq_false_iff, Bool.not_eq_false'] at h
  simp [append, h.2]

theorem append_deletedCount_zero (status : RunStatus) (matched : ℕ) (message : String)
    (targets : List DropTarget) :
    (R.append status matched 0 message targets).deletedCount = 0 := by
  simp only [append]
  split_ifs <;> rfl

variable (cutoff targetNow) in
/-- A run that may not delete leaves the table as it is, and reports no deletion. -/
theorem deleteRows_dryRun (hT : T.Sound D) (hdry : R.effectiveDryRun = true) :
    (R.deleteRows D cutoff targetNow T).2 = T ∧
      ∀ o, (R.deleteRows D cutoff targetNow T).1 = .ok o → o.deletedCount = 0 := by
  unfold deleteRows
  split
  · exact ⟨rfl, fun _ ho => by cases ho⟩
  · rename_i targets U dropped htargets
    obtain ⟨-, -, -, hsame⟩ := dropTargets_ok hT htargets
    obtain ⟨rfl, rfl⟩ := hsame hdry
    rw [hdry]
    obtain ⟨hrows, hdone⟩ := batchDelete_dryRun cutoff R.estimated (R.commitsLeft targets) U.rows
      R.policy.batchSize
    refine ⟨by dsimp only; rw [hrows], fun o ho => ?_⟩
    obtain ⟨counts, hcounts, rfl⟩ := Raising.map_eq_ok ho
    dsimp only
    rw [hdone counts hcounts]
    exact append_deletedCount_zero ..

variable (cutoff targetNow) in
/-- A run that may delete takes out due rows only, and all of them if it ends well; only a failure
of the database takes rows out of a run that does not. -/
theorem deleteRows_executes (hT : T.Sound D) (hexecutes : R.effectiveDryRun = false) :
    (∀ o, (R.deleteRows D cutoff targetNow T).1 = .ok o → o.status = .ok ∧
      ∃ targetCutoff, retentionCutoff targetNow R.days = .ok targetCutoff ∧
        R.Deletes T (R.deleteRows D cutoff targetNow T).2 cutoff targetCutoff o.deletedCount) ∧
    ∀ fault, (R.deleteRows D cutoff targetNow T).1 = .error fault →
      (R.deleteRows D cutoff targetNow T).2 = T ∨ R.commits ≠ none ∧
      ∃ targetCutoff, retentionCutoff targetNow R.days = .ok targetCutoff ∧
        R.Takes T (R.deleteRows D cutoff targetNow T).2 cutoff targetCutoff := by
  unfold deleteRows
  split
  · exact ⟨fun _ ho => (by cases ho), fun _ _ => Or.inl rfl⟩
  · rename_i targets U dropped htargets
    obtain ⟨targetCutoff, hcutoff, hU, -⟩ := dropTargets_ok hT htargets
    obtain ⟨n, hn, hrest, hok, hwhy⟩ := batchDelete_spec cutoff R.policy.batchSize hU.sound.ids
      R.estimated (R.commitsLeft targets)
    rw [hexecutes]
    refine ⟨fun o ho => ?_, fun fault hfault => Or.inr ⟨fun hnone => ?_, targetCutoff, hcutoff,
      takes_of_batches hU hrest⟩⟩
    · obtain ⟨counts, hcounts, rfl⟩ := Raising.map_eq_ok ho
      obtain ⟨hdeleted, hwhy⟩ := hwhy counts hcounts
      simp only [append_of_not_dryRun hexecutes, hdeleted]
      exact ⟨trivial, targetCutoff, hcutoff, deletes_of_batches hU hn hrest hwhy⟩
    · obtain ⟨done, hdone⟩ := hok (by simp [commitsLeft, hnone])
      simp [hdone, Except.map] at hfault

/-- Where both readings of the clock are of one month, dropping partitions makes no difference: what
is left are the rows that are not before the cutoff. -/
theorem Deletes.rows_eq (hT : T.Sound D) {targetCutoff : UtcTime} {deleted : ℕ}
    (h : R.Deletes T T' cutoff targetCutoff deleted)
    (hmonth : targetCutoff.inMonth ≤ cutoff.inMonth)
    (hfew : deleted < maxBatchIterations * R.policy.batchSize) :
    T'.rows = T.rows.filter fun r => !older cutoff r := by
  have hnodup : T.rows.Nodup := List.Nodup.of_map _ hT.ids
  have hkept : T'.rows = T'.rows.filter fun r => !older cutoff r := by
    symm
    rw [List.filter_eq_self]
    intro r hr
    simpa [older] using h.complete hfew r hr
  have hsub : T'.rows.Sublist (T.rows.filter fun r => !older cutoff r) := by
    rw [hkept]
    exact h.sublist.filter _
  have hperm : T'.rows.Perm (T.rows.filter fun r => !older cutoff r) := by
    rw [List.perm_ext_iff_of_nodup (hnodup.sublist h.sublist) (hnodup.filter _)]
    intro r
    constructor
    · exact fun hr => hsub.subset hr
    · intro hr
      obtain ⟨hr, hyoung⟩ := List.mem_filter.1 hr
      have hyoung : cutoff ≤ r.createdAt := by simpa [older] using hyoung
      by_contra hgone
      rcases h.due r hr hgone with hold | ⟨-, hold⟩
      · exact absurd hold (not_lt.2 hyoung)
      · have hmonthOld : r.createdAt.inMonth < targetCutoff.inMonth := UtcTime.lt_first_iff.1 hold
        exact absurd (UtcTime.inMonth_mono hyoung) (not_le.2 (hmonthOld.trans_le hmonth))
  exact hsub.eq_of_length hperm.length_eq

/-- A run over the delivery logs, with or without dropping whole partitions, on a database that may
fail at any point: it touches nothing unless it is allowed to delete. If it does not end well it
reports no deletion, and it has taken out nothing, or, where the database failed, rows that were
due. If it ends well, no row goes that is not before its cutoff, unless with a month that was over
by the second reading of the clock; no row before the cutoff stays unless every turn was taken for
a full batch; and where the readings are of one month, what stays is what deleting rows one by one
would leave. The count it reports is the number of rows that went, where no partition is so large
that its rows are estimated. -/
theorem deliveryLogs_exact (hT : T.Sound D)
    (h : R.deliveryLogs D now targetNow T = .ok (o, T')) :
    ∃ cutoff, retentionCutoff now R.days = .ok cutoff ∧
      (¬ R.Executes → T' = T ∧ o.deletedCount = 0) ∧
      (R.Executes → o.status ≠ .ok → o.deletedCount = 0 ∧
        (T' = T ∨ R.commits ≠ none ∧ ∃ targetCutoff,
          retentionCutoff targetNow R.days = .ok targetCutoff ∧
            R.Takes T T' cutoff targetCutoff)) ∧
      (R.Executes → o.status = .ok → ∃ targetCutoff,
        retentionCutoff targetNow R.days = .ok targetCutoff ∧
        R.Deletes T T' cutoff targetCutoff o.deletedCount ∧
        (targetCutoff.inMonth ≤ cutoff.inMonth →
          o.deletedCount < maxBatchIterations * R.policy.batchSize →
          T'.rows = T.rows.filter fun r => !older cutoff r)) := by
  obtain ⟨cutoff, hcutoff, h⟩ := Raising.bind_eq_ok h
  refine ⟨cutoff, hcutoff, ?_⟩
  by_cases hexecutes : R.Executes
  · obtain ⟨henabled, hdry⟩ := hexecutes
    have hallowed : R.decision.allowed = true := by
      simp only [effectiveDryRun, Bool.or_eq_false_iff, Bool.not_eq_false'] at hdry
      exact hdry.2
    rw [if_neg (by simp [henabled]), if_neg (by simp [hallowed])] at h
    obtain ⟨hok, herror⟩ := deleteRows_executes cutoff targetNow hT hdry
    refine ⟨fun hnot => absurd ⟨henabled, hdry⟩ hnot, ?_⟩
    split at h
    · rename_i outcome U hrows
      rw [hrows] at hok
      obtain ⟨rfl, rfl⟩ := Prod.mk.inj (Except.ok.inj h)
      obtain ⟨hstatus, targetCutoff, htarget, hdeletes⟩ := hok outcome rfl
      exact ⟨fun _ hbad => absurd hstatus hbad, fun _ _ => ⟨targetCutoff, htarget, hdeletes,
        fun hmonth hfew => hdeletes.rows_eq hT hmonth hfew⟩⟩
    · rename_i fault U hrows
      rw [hrows] at herror
      obtain ⟨rfl, rfl⟩ := Prod.mk.inj (Except.ok.inj h)
      refine ⟨fun _ _ => ⟨append_deletedCount_zero .., herror fault rfl⟩, fun _ hstatus => ?_⟩
      rw [append_of_not_dryRun hdry] at hstatus
      cases hstatus
  · have hsame : T' = T ∧ o.deletedCount = 0 := by
      split_ifs at h with hdisabled hskipped
      · obtain ⟨rfl, rfl⟩ := Prod.mk.inj (Except.ok.inj h)
        exact ⟨rfl, append_deletedCount_zero ..⟩
      · obtain ⟨rfl, rfl⟩ := Prod.mk.inj (Except.ok.inj h)
        exact ⟨rfl, append_deletedCount_zero ..⟩
      · have hdry : R.effectiveDryRun = true := by
          by_contra hdry
          exact hexecutes ⟨by simpa using hdisabled, by simpa using hdry⟩
        obtain ⟨hrows, hdeleted⟩ :=
          deleteRows_dryRun cutoff targetNow hT hdry
        split at h
        · rename_i outcome U hdone
          rw [hdone] at hrows hdeleted
          obtain ⟨rfl, rfl⟩ := Prod.mk.inj (Except.ok.inj h)
          exact ⟨hrows, hdeleted outcome rfl⟩
        · rename_i fault U hdone
          rw [hdone] at hrows
          obtain ⟨rfl, rfl⟩ := Prod.mk.inj (Except.ok.inj h)
          exact ⟨hrows, append_deletedCount_zero ..⟩
    exact ⟨fun _ => hsame, fun hex => absurd hex hexecutes, fun hex => absurd hex hexecutes⟩

end Run

/-! ### A run over three rows -/

theorem year_bounds_2026 : 1 ≤ 2026 ∧ 2026 < 10000 := by decide

/-- A full hour of 2026, with the months and the days counted from zero. -/
def hourOf2026 (month : Fin 12) (day : Fin 28) (hour : Fin 24) : UtcTime where
  year := 2026
  month := month + 1
  day := day + 1
  hour := hour
  minute := 0
  second := 0
  year_bounds := year_bounds_2026
  month_bounds := by omega
  day_bounds := ⟨by omega, by unfold daysInMonth; split_ifs <;> omega⟩
  time_bounds := by omega

def january : Month := (hourOf2026 0 0 0).inMonth

/-- A row of January in the partition of the month, one of April and one of June elsewhere. -/
def sampleLogs : LogTable where
  partitions := [⟨"delivery_logs_2026_01", hourOf2026 0 0 0, hourOf2026 1 0 0⟩]
  hasDefault := true
  rows := [⟨hourOf2026 0 4 8, 1⟩, ⟨hourOf2026 3 19 8, 2⟩, ⟨hourOf2026 5 13 8, 3⟩]
  nextId := 4

def sampleRun : Run where
  settings := ⟨some "staging", true, false, false, true, none⟩
  policy := ⟨true, 30, none⟩
  dryRun := false
  trigger := "manual"

def sampleNow : UtcTime := hourOf2026 5 14 0

def sampleCutoff : UtcTime := hourOf2026 4 15 0

def sampleTarget : DropTarget :=
  ⟨"delivery_logs_2026_01", january, (hourOf2026 1 0 0).inMonth, 1, sampleCutoff⟩

def sampleOutcome : RunOutcome :=
  ⟨.ok, 1, 2, 30, "matched=1, deleted=1, partition_dropped_rows=1", [sampleTarget]⟩

def sampleLeft : LogTable where
  partitions := []
  hasDefault := true
  rows := [⟨hourOf2026 5 13 8, 3⟩]
  nextId := 4

theorem sampleLogs_sound : sampleLogs.Sound asciiDecimals := by
  refine ⟨?_, by decide, List.pairwise_singleton _ _, by decide, by decide⟩
  intro p hp m hm
  obtain rfl := List.mem_singleton.1 hp
  have hname : partitionMonthFromName asciiDecimals "delivery_logs_2026_01" =
      .ok (some january) := by decide
  obtain rfl : january = m := by
    have h := hname.symm.trans hm
    injection h with h
    injection h
  exact ⟨_, rfl, rfl, rfl⟩

theorem sampleRun_result : sampleRun.deliveryLogs asciiDecimals sampleNow sampleNow sampleLogs =
    .ok (sampleOutcome, sampleLeft) := by
  decide +kernel

/-- The row of January goes with its partition, the one of April by itself. -/
theorem sampleRun_leavesJune :
    sampleLeft.rows = sampleLogs.rows.filter fun r => !older sampleCutoff r := by
  obtain ⟨cutoff, hcutoff, -, -, hdeletes⟩ :=
    Run.deliveryLogs_exact sampleLogs_sound sampleRun_result
  obtain ⟨targetCutoff, htarget, -, hrows⟩ := hdeletes (by decide +kernel) rfl
  have hsame : retentionCutoff sampleNow sampleRun.days = .ok sampleCutoff := by decide
  obtain rfl : sampleCutoff = cutoff := Except.ok.inj (hsame.symm.trans hcutoff)
  obtain rfl : sampleCutoff = targetCutoff := Except.ok.inj (hsame.symm.trans htarget)
  exact hrows le_rfl (by decide)

/-- The database fails once the partition is dropped: an error and no deletion are reported, and the
row of January is gone. -/
example : (({ sampleRun with commits := some 1 } : Run).deliveryLogs asciiDecimals sampleNow
      sampleNow sampleLogs).map (fun (o, T) => (o.status, o.deletedCount, T.rows.length)) =
    .ok (RunStatus.error, 0, 2) := by
  decide +kernel

end Retention
