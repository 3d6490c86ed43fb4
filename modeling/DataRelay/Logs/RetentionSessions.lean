import DataRelay.Lib.Steps
import DataRelay.Logs.Retention

/-! Retention by any number of sessions at once, while rows are inserted and partitions are made.
Each statement that is committed by itself is a step. -/
namespace Retention

/-- A session of retention between two of its statements. -/
inductive Session where
  | idle
  | started (R : Run) (now cutoff : UtcTime)
  /-- The targets are known, and nothing is dropped yet. -/
  | targeted (R : Run) (now cutoff targetNow : UtcTime) (targets : List DropTarget)
  | dropped (R : Run) (now cutoff : UtcTime)
  | deleting (R : Run) (now cutoff : UtcTime) (cap : Option ℕ) (turns total : ℕ)

inductive SessionStep where
  | begin (R : Run) (now : UtcTime)
  | calculate (targetNow : UtcTime)
  | drop
  | count
  | deleteBatch
  /-- The database refuses its next statement. -/
  | fail

inductive Action where
  | insert (ensured : Bool) (createdAt : UtcTime)
  | ensurePartitions (startMonth : UtcTime) (monthsAhead : ℤ)
  | session (n : ℕ) (next : SessionStep)

structure Database where
  table : LogTable
  session : ℕ → Session := fun _ => .idle

namespace Run

variable (R : Run)

/-- The run comes to the calculation of its targets. -/
def reachesTargets : Bool :=
  R.policy.logsEnabled &&
    !(!R.dryRun && !R.decision.allowed && R.trigger ∈ automaticRetentionTriggers)

/-- How a session goes on once the matching rows are counted, or are not to be counted. -/
def afterCount (now cutoff : UtcTime) (T : LogTable) : Session :=
  if R.effectiveDryRun then .idle
  else if R.estimated.isSome then .deleting R now cutoff none maxBatchIterations 0
  else
    let matched := T.rows.countP (older cutoff)
    if matched = 0 then .idle else .deleting R now cutoff (some matched) maxBatchIterations 0

end Run

namespace Database

variable (s : Database)

def setSession (n : ℕ) (next : Session) : Database :=
  { s with session := Function.update s.session n next }

def setTable (T : LogTable) : Database := { s with table := T }

/-- A statement that fails is rolled back. -/
def commit (result : Except Fault LogTable) : Database := result.toOption.elim s s.setTable

/-- A session goes on. A step it is not ready for changes nothing. -/
def stepSession (D : Decimals) (n : ℕ) (a : SessionStep) : Database :=
  match s.session n, a with
  | .idle, .begin R now =>
    match retentionCutoff now R.days with
    | .ok cutoff => if R.reachesTargets then s.setSession n (.started R now cutoff) else s
    | .error _ => s
  | .started R now cutoff, .calculate targetNow =>
    match calculateDropTargets D s.table R.estimate R.days targetNow with
    | .ok targets => s.setSession n (.targeted R now cutoff targetNow targets)
    | .error _ => s.setSession n .idle
  | .targeted R now cutoff targetNow targets, .drop =>
    match R.dropDue D targets targetNow s.table with
    | .ok done => (s.setTable done.1).setSession n (.dropped R now cutoff)
    | .error _ => s.setSession n .idle
  | .dropped R now cutoff, .count => s.setSession n (R.afterCount now cutoff s.table)
  | .deleting R now cutoff cap (turns + 1) total, .deleteBatch =>
    match deleteBatch cutoff R.policy.batchSize cap total s.table.rows with
    | .capped => s.setSession n .idle
    | .finished _ rows => (s.setTable { s.table with rows }).setSession n .idle
    | .goesOn deleted rows => (s.setTable { s.table with rows }).setSession n
        (.deleting R now cutoff cap turns (total + deleted))
  | .deleting _ _ _ _ 0 _, .deleteBatch => s.setSession n .idle
  | _, .fail => s.setSession n .idle
  | _, _ => s

def step (D : Decimals) (s : Database) : Action → Database
  | .insert ensured createdAt => s.commit (s.table.insert ensured createdAt)
  | .ensurePartitions startMonth monthsAhead =>
    s.commit (s.table.ensurePartitions startMonth monthsAhead)
  | .session n next => s.stepSession D n next

end Database

/-- The reading of the clock that decides what a session may take out next. -/
def Session.clock : Session → Option (Run × UtcTime)
  | .targeted R _ _ targetNow _ => some (R, targetNow)
  | .deleting R now _ _ _ _ => some (R, now)
  | _ => none

/-- A session knows the cutoff of its clock, and deletes only if its run may. -/
def Session.Valid (D : Decimals) : Session → Prop
  | .idle => True
  | .started R now cutoff => R.policy.logsEnabled = true ∧ retentionCutoff now R.days = .ok cutoff
  | .targeted R now cutoff targetNow targets =>
    R.policy.logsEnabled = true ∧ retentionCutoff now R.days = .ok cutoff ∧
      (∃ months, protectedPartitionMonths targetNow = .ok months) ∧
      ∃ targetCutoff, retentionCutoff targetNow R.days = .ok targetCutoff ∧
        ∀ t ∈ targets, t.Due D targetCutoff
  | .dropped R now cutoff => R.policy.logsEnabled = true ∧ retentionCutoff now R.days = .ok cutoff
  | .deleting R now cutoff _ _ _ => R.Executes ∧ retentionCutoff now R.days = .ok cutoff

structure Database.Inv (D : Decimals) (s : Database) : Prop where
  table : s.table.Sound D
  session : ∀ n, (s.session n).Valid D

/-- The action is a step of a session that may take the row out: its run deletes, and the row is
before the cutoff of the session's clock. -/
def Database.MayTake (s : Database) (a : Action) (r : LogRow) : Prop :=
  ∃ n next R now cutoff, a = .session n next ∧ (s.session n).clock = some (R, now) ∧
    R.Executes ∧ retentionCutoff now R.days = .ok cutoff ∧ r.createdAt < cutoff

section Steps

variable {D : Decimals} {s : Database}

/-- Only the session that steps changes. -/
theorem Database.Inv.setSession (h : s.Inv D) {n : ℕ} {next : Session} (hnext : next.Valid D) :
    (s.setSession n next).Inv D := by
  refine ⟨h.table, fun m => ?_⟩
  by_cases hm : m = n
  · subst hm
    simpa only [Database.setSession, Function.update_self] using hnext
  · simpa only [Database.setSession, Function.update_of_ne hm] using h.session m

theorem Database.Inv.setTable (h : s.Inv D) {T : LogTable} (hT : T.Sound D) :
    (s.setTable T).Inv D := ⟨hT, h.session⟩

theorem Database.Inv.commit (h : s.Inv D) {result : Except Fault LogTable}
    (hresult : ∀ T, result = .ok T → T.Sound D) : (s.commit result).Inv D := by
  cases result with
  | error fault => exact h
  | ok T => exact h.setTable (hresult T rfl)

/-- The table with some of its rows. -/
theorem sound_rows {T : LogTable} (hT : T.Sound D) {rows : List LogRow}
    (hrows : rows.Sublist T.rows) : LogTable.Sound D { T with rows } :=
  hT.sublist (List.Sublist.refl _) hrows rfl

/-- What a drop of due targets does: it goes through, and takes rows before the cutoff only. -/
theorem dropDue_ok {R : Run} {T : LogTable} (hT : T.Sound D) {targetNow targetCutoff : UtcTime}
    {targets : List DropTarget} {months : List Month}
    (hmonths : protectedPartitionMonths targetNow = .ok months)
    (hcutoff : retentionCutoff targetNow R.days = .ok targetCutoff)
    (hdue : ∀ t ∈ targets, t.Due D targetCutoff) :
    ∃ done, R.dropDue D targets targetNow T = .ok done ∧ done.1.Sound D ∧
      ∀ r ∈ T.rows, r ∉ done.1.rows → R.effectiveDryRun = false ∧ r.createdAt < targetCutoff := by
  by_cases hdrops : R.dropsPartitions targets = true
  · have hexecutes : R.effectiveDryRun = false := by
      simp only [Run.dropsPartitions, Bool.and_eq_true, Bool.not_eq_true'] at hdrops
      exact hdrops.1.2
    refine ⟨_, (if_pos hdrops).trans
      (dropPartitions_ok hdue (retentionCutoff_ok hcutoff).le hmonths T), hT.dropTables _, ?_⟩
    intro r hr hgone
    refine ⟨hexecutes, ?_⟩
    dsimp only at hgone
    rw [LogTable.dropTables_rows] at hgone
    have hsome : ∃ t ∈ targets, T.inPartition t.partitionName r = true := by simpa [hr] using hgone
    obtain ⟨t, ht, hin⟩ := hsome
    exact ((hdue t ht).older hT hin).trans_le (UtcTime.first_le_iff.2 le_rfl)
  · exact ⟨_, if_neg hdrops, hT, fun r hr hgone => absurd hr hgone⟩

/-- What a batch leaves, and what it takes. -/
theorem deleteBatch_rows {cutoff : UtcTime} {batchSize total : ℕ} {cap : Option ℕ}
    {rows rest : List LogRow} (hnodup : (rows.map LogRow.id).Nodup) {deleted : ℕ}
    (h : deleteBatch cutoff batchSize cap total rows = .finished deleted rest ∨
      deleteBatch cutoff batchSize cap total rows = .goesOn deleted rest) :
    rest.Sublist rows ∧ ∀ r ∈ rows, r ∉ rest → r.createdAt < cutoff := by
  have hrest :
      rest = OldestFirst.rest LogRow.id (older cutoff) (room batchSize cap total) rows := by
    unfold deleteBatch at h
    dsimp only at h
    rcases h with h | h
    · split_ifs at h
      injection h with _ h
      exact h.symm
    · split_ifs at h
      injection h with _ h
      exact h.symm
  subst hrest
  refine ⟨List.filter_sublist, ?_⟩
  intro r hr hgone
  rw [OldestFirst.mem_rest_iff hnodup] at hgone
  have hbatch : r ∈ OldestFirst.batch (older cutoff) (room batchSize cap total) rows := by
    by_contra hnot
    exact hgone ⟨hr, hnot⟩
  simpa [older] using (OldestFirst.mem_of_mem_batch hbatch).2

theorem afterCount_valid {R : Run} {now cutoff : UtcTime} {T : LogTable}
    (h : (Session.dropped R now cutoff).Valid D) : (R.afterCount now cutoff T).Valid D := by
  unfold Run.afterCount
  dsimp only
  split_ifs with hdry
  · trivial
  · exact ⟨⟨h.1, by simpa using hdry⟩, h.2⟩
  · trivial
  · exact ⟨⟨h.1, by simpa using hdry⟩, h.2⟩

/-- What a step of a session keeps, and what it may take out: only a drop and a batch take rows. -/
theorem stepSession_spec (h : s.Inv D) (n : ℕ) (a : SessionStep) :
    (s.stepSession D n a).Inv D ∧
      ∀ r ∈ s.table.rows, r ∉ (s.stepSession D n a).table.rows →
        s.MayTake (.session n a) r := by
  have hvalid := h.session n
  have hkeep {a : Action} (next : Session) : ∀ r ∈ s.table.rows,
      r ∉ (s.setSession n next).table.rows → s.MayTake a r := fun r hr hgone => absurd hr hgone
  have hsame {a : Action} : ∀ r ∈ s.table.rows, r ∉ s.table.rows → s.MayTake a r :=
    fun r hr hgone => absurd hr hgone
  unfold Database.stepSession
  split
  · split
    · rename_i R now _ cutoff hcutoff
      split_ifs with hreaches
      · refine ⟨h.setSession ⟨?_, hcutoff⟩, hkeep _⟩
        simp only [Run.reachesTargets, Bool.and_eq_true] at hreaches
        exact hreaches.1
      · exact ⟨h, hsame⟩
    · exact ⟨h, hsame⟩
  · rename_i R now cutoff targetNow hsession
    rw [hsession] at hvalid
    split
    · rename_i targets htargets
      obtain ⟨targetCutoff, hcutoff, hdue⟩ := due_of_calculate htargets
      obtain ⟨_, -, hrest⟩ := Raising.bind_eq_ok htargets
      obtain ⟨months, hmonths, -⟩ := Raising.bind_eq_ok hrest
      exact ⟨h.setSession ⟨hvalid.1, hvalid.2, ⟨months, hmonths⟩, targetCutoff, hcutoff, hdue⟩,
        hkeep _⟩
    · exact ⟨h.setSession trivial, hkeep _⟩
  · rename_i R now cutoff targetNow targets hsession
    rw [hsession] at hvalid
    obtain ⟨henabled, hnow, ⟨months, hmonths⟩, targetCutoff, hcutoff, hdue⟩ := hvalid
    obtain ⟨done, hdone, hsound, htaken⟩ := dropDue_ok h.table hmonths hcutoff hdue
    rw [hdone]
    refine ⟨(h.setTable hsound).setSession ⟨henabled, hnow⟩, ?_⟩
    intro r hr hgone
    obtain ⟨hexecutes, hold⟩ := htaken r hr hgone
    exact ⟨n, _, R, targetNow, targetCutoff, rfl, by rw [hsession]; rfl,
      ⟨henabled, hexecutes⟩, hcutoff, hold⟩
  · rename_i R now cutoff hsession
    rw [hsession] at hvalid
    exact ⟨h.setSession (afterCount_valid hvalid), hkeep _⟩
  · rename_i R now cutoff cap turns total hsession
    rw [hsession] at hvalid
    have hclock : (s.session n).clock = some (R, now) := by rw [hsession]; rfl
    split
    · exact ⟨h.setSession trivial, hkeep _⟩
    · rename_i deleted rows hbatch
      obtain ⟨hsub, htaken⟩ := deleteBatch_rows h.table.ids (Or.inl hbatch)
      exact ⟨(h.setTable (sound_rows h.table hsub)).setSession trivial,
        fun r hr hgone =>
          ⟨n, _, R, now, cutoff, rfl, hclock, hvalid.1, hvalid.2, htaken r hr hgone⟩⟩
    · rename_i deleted rows hbatch
      obtain ⟨hsub, htaken⟩ := deleteBatch_rows h.table.ids (Or.inr hbatch)
      exact ⟨(h.setTable (sound_rows h.table hsub)).setSession hvalid,
        fun r hr hgone =>
          ⟨n, _, R, now, cutoff, rfl, hclock, hvalid.1, hvalid.2, htaken r hr hgone⟩⟩
  · exact ⟨h.setSession trivial, hkeep _⟩
  · exact ⟨h.setSession trivial, hkeep _⟩
  · exact ⟨h, hsame⟩

theorem mem_commit {result : Except Fault LogTable} {r : LogRow} (hr : r ∈ s.table.rows)
    (hrows : ∀ T, result = .ok T → r ∈ T.rows) : r ∈ (s.commit result).table.rows := by
  cases result with
  | error fault => exact hr
  | ok T => exact hrows T rfl

theorem step_spec (h : s.Inv D) (a : Action) :
    (s.step D a).Inv D ∧ ∀ r ∈ s.table.rows, r ∉ (s.step D a).table.rows → s.MayTake a r := by
  cases a with
  | insert ensured createdAt =>
    refine ⟨h.commit fun T hT => (LogTable.insert_ok h.table hT).1, fun r hr hgone => ?_⟩
    refine absurd (mem_commit hr fun T hT => ?_) hgone
    obtain ⟨-, id, hrows⟩ := LogTable.insert_ok h.table hT
    rw [hrows]
    exact List.mem_append_left _ hr
  | ensurePartitions startMonth monthsAhead =>
    refine ⟨h.commit fun T hT => (LogTable.ensurePartitions_ok h.table hT).1, fun r hr hgone => ?_⟩
    refine absurd (mem_commit hr fun T hT => ?_) hgone
    rw [(LogTable.ensurePartitions_ok h.table hT).2]
    exact hr
  | session n next => exact stepSession_spec h n next

/-- Targets that were calculated are dropped, whatever was done to the table since. -/
theorem drop_goesThrough (h : s.Inv D) {n : ℕ} {R : Run} {now cutoff targetNow : UtcTime}
    {targets : List DropTarget}
    (hsession : s.session n = .targeted R now cutoff targetNow targets) :
    ∃ done, R.dropDue D targets targetNow s.table = .ok done := by
  have hvalid := h.session n
  rw [hsession] at hvalid
  obtain ⟨-, -, ⟨months, hmonths⟩, targetCutoff, hcutoff, hdue⟩ := hvalid
  obtain ⟨done, hdone, -⟩ := dropDue_ok (R := R) h.table hmonths hcutoff hdue
  exact ⟨done, hdone⟩

end Steps

/-- In every interleaving of inserts, of the making of partitions and of any number of sessions of
retention, whatever their policies, guards, clocks and catalogs, and wherever the database fails
them: a row goes only by a step of a session whose run may delete, and only if it is before the
cutoff of that session's clock; and no drop of targets that a session calculated is refused,
whatever the others did in between. -/
theorem retention_law (D : Decimals) (T : LogTable) (hT : T.Sound D) (actions : List Action) :
    Steps.Along (Database.step D)
      (fun s a => (∀ r ∈ s.table.rows, r ∉ (s.step D a).table.rows → s.MayTake a r) ∧
        ∀ n R now cutoff targetNow targets,
          s.session n = .targeted R now cutoff targetNow targets →
            ∃ done, R.dropDue D targets targetNow s.table = .ok done)
      { table := T } actions :=
  @Steps.along_of_invariant _ _ (Database.step D) (Database.Inv D) (fun _ _ => True) _
    (fun _ a hs _ => (step_spec hs a).1)
    (fun _ a hs _ => ⟨(step_spec hs a).2, fun _ _ _ _ _ _ hsession => drop_goesThrough hs hsession⟩)
    _ _ ⟨hT, fun _ => trivial⟩ (Steps.along_of_forall (fun _ _ => trivial) _ actions)

/-- A session meets the insert of a row between its targets and their drop. -/
def sampleActions : List Action :=
  [.session 0 (.begin sampleRun sampleNow), .session 0 (.calculate sampleNow),
    .insert false january.first, .session 0 .drop, .session 0 .count, .session 0 .deleteBatch]

theorem sampleActions_lawful : Steps.Along (Database.step asciiDecimals)
    (fun s a => (∀ r ∈ s.table.rows, r ∉ (s.step asciiDecimals a).table.rows → s.MayTake a r) ∧
      ∀ n R now cutoff targetNow targets,
        s.session n = .targeted R now cutoff targetNow targets →
          ∃ done, R.dropDue asciiDecimals targets targetNow s.table = .ok done)
    { table := sampleLogs } sampleActions :=
  retention_law asciiDecimals sampleLogs sampleLogs_sound sampleActions

end Retention
