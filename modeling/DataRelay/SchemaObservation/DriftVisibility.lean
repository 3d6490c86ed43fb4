import DataRelay.SchemaObservation.DriftHistory

/-! What a finding of field drift stands for, and when a confirmed change has an open one. -/
namespace SchemaObservation

/-- What a finding of a category says of the runs since the last reset. -/
def Confirmed (S : DriftSettings) (w : Tracked) (path : String) : DriftCategory → Prop
  | .fieldAdded => ∃ base, w.st.row.bind (·.baseline) = some base ∧ path ∉ base.map Prod.fst ∧
      Lasts S.addedThreshold (Seen path) w.since
  | .fieldRemoved => ∃ base, w.st.row.bind (·.baseline) = some base ∧ path ∈ base.map Prod.fst ∧
      Lasts S.removedThreshold (Missing path) w.since
  | .fieldTypeChanged => ∃ base type, w.st.row.bind (·.baseline) = some base ∧
      Dict.get? path base = some type ∧ Lasts S.typeThreshold (Retyped path type) w.since

variable {S : DriftSettings}

/-- A gate that is met is met by what the runs saw. -/
theorem confirmed_of_gate {w : Tracked} {row : StreamObservedSchema} {base batch : BatchPaths}
    (hrow : w.st.row = some row) (hbase : row.baseline = some base)
    (hstreaks : StreaksHold row.baseline row.paths w.since) {path : String}
    {category : DriftCategory} (hgate : Gate S base batch row.paths path category = true) :
    Confirmed S w path category := by
  have hbaseline : w.st.row.bind (·.baseline) = some base := by rw [hrow, Option.bind_some, hbase]
  cases category with
  | fieldAdded =>
    simp only [Gate, Bool.and_eq_true, Bool.not_eq_true'] at hgate
    obtain ⟨⟨-, hnot⟩, hcount⟩ := hgate
    have houtside : path ∉ base.map Prod.fst := by
      rw [← Dict.has_iff, hnot]
      decide
    obtain ⟨m, hm, hle⟩ := (Option.any_eq_true _ _).mp hcount
    exact ⟨base, hbaseline, houtside,
      (hstreaks.added base hbase path m hm houtside).of_le (of_decide_eq_true hle)⟩
  | fieldRemoved =>
    simp only [Gate, Bool.and_eq_true] at hgate
    obtain ⟨hin, hcount⟩ := hgate
    obtain ⟨m, hm, hle⟩ := (Option.any_eq_true _ _).mp hcount
    exact ⟨base, hbaseline, Dict.has_iff.mp hin,
      (hstreaks.seen path m hm).of_le (of_decide_eq_true hle)⟩
  | fieldTypeChanged =>
    unfold Gate at hgate
    cases htype : Dict.get? path base with
    | none => simp [htype] at hgate
    | some type =>
      cases hbatch : Dict.get? path batch with
      | none => simp [htype, hbatch] at hgate
      | some u =>
        simp only [htype, hbatch, Bool.and_eq_true] at hgate
        obtain ⟨m, hm, hle⟩ := (Option.any_eq_true _ _).mp hgate.2
        exact ⟨base, type, hbaseline, htype,
          (hstreaks.typed base hbase path m type hm htype).of_le (of_decide_eq_true hle)⟩

/-- Operators make no finding. -/
theorem operator_keys (w : Tracked) {op : DriftOp} (hop : ∀ events now, op ≠ .observe events now) :
    (trackStep S w op).st.findings.map (·.key) = w.st.findings.map (·.key) := by
  rw [trackStep_st]
  cases op with
  | observe events now => exact absurd rfl (hop events now)
  | acknowledge findingId actor note now =>
    simp only [driftStep, acknowledgeFieldDrift]
    cases w.st.findings.find? fun f => f.id = findingId with
    | none => rfl
    | some f =>
      simp only
      split_ifs
      · rfl
      · apply map_key
        intro g
        split_ifs <;> rfl
  | reset actor reason now =>
    simp only [driftStep, resetSchemaBaseline]
    cases w.st.row with
    | none => rfl
    | some row =>
      simp only
      split_ifs
      · rfl
      · apply map_key
        intro g
        split_ifs <;> rfl
      · apply map_key
        intro g
        split_ifs <;> rfl

/-- A finding is made only for a change that the last runs since the reset all show: of a path
outside the baseline, that it was there; of one of the baseline, that it was missing or had
another type. -/
theorem drift_confirmed (S : DriftSettings) (ops : List DriftOp) (op : DriftOp)
    (f : StreamSchemaFieldDrift)
    (hf : f ∈ (trackStep S (Steps.run (trackStep S) {} ops) op).st.findings)
    (hnew : f.key ∉ (Steps.run (trackStep S) {} ops).st.findings.map (·.key)) :
    Confirmed S (trackStep S (Steps.run (trackStep S) {} ops) op) f.fieldPath f.category := by
  have hw := driftInv_run (S := S) ops
  set w := Steps.run (trackStep S) {} ops with hrun
  cases op with
  | observe events now =>
    by_cases hsample : observedSample S events = []
    · have hsame : (trackStep S w (.observe events now)).st = w.st := observe_none hsample now w.st
      rw [hsame] at hf
      exact absurd (List.mem_map_of_mem hf) hnew
    · obtain ⟨row, st, hrow, hstreaks, hbased, hfindings, heq⟩ := observe_row hsample now hw
      have hstep : (trackStep S w (.observe events now)).st =
        observeExtractedEvents S now events w.st := rfl
      have hsince : (trackStep S w (.observe events now)).since =
          observedBatch S events :: w.since := if_neg hsample
      cases hbase : row.baseline with
      | none =>
        rw [hstep, heq, hbase] at hf
        rw [← hfindings] at hnew
        exact absurd (List.mem_map_of_mem hf) hnew
      | some base =>
        have hne : base ≠ [] := fun h => hbased (h ▸ hbase)
        rw [hstep, heq, hbase, detectFieldChanges_some hne] at hf
        have hkey := (upserts_keys _ st f.key).mp (List.mem_map_of_mem hf)
        rw [hfindings] at hkey
        have hgate := mem_confirmedChanges.mp (hkey.resolve_left hnew)
        exact confirmed_of_gate (hstep ▸ hrow) hbase (hsince ▸ hstreaks) hgate
  | acknowledge findingId actor note now =>
    have hsame : (trackStep S w (.acknowledge findingId actor note now)).st.findings.map (·.key) =
      w.st.findings.map (·.key) := operator_keys w (fun _ _ h => by cases h)
    rw [← hsame] at hnew
    exact absurd (List.mem_map_of_mem hf) hnew
  | reset actor reason now =>
    have hsame : (trackStep S w (.reset actor reason now)).st.findings.map (·.key) =
      w.st.findings.map (·.key) := operator_keys w (fun _ _ h => by cases h)
    rw [← hsame] at hnew
    exact absurd (List.mem_map_of_mem hf) hnew

/-- The settings as they come. -/
def defaultDriftSettings : DriftSettings where
  maxEventsPerRun := 500
  maxPaths := 5000
  maxDepth := 64
  baselineMinRuns := 2
  baselineMinEvents := 1
  addedConfirmRuns := 2
  removedAbsentRuns := 3
  typeChangeConfirmRuns := 3

/-- A run over one event with or without the member `x`. -/
def withX (now : ℕ) : DriftOp := .observe [.obj [("k", .int 1), ("x", .int 1)]] now
def withoutX (now : ℕ) : DriftOp := .observe [.obj [("k", .int 1)]] now

theorem removedX_confirmed :
    ∃ f ∈ (trackStep defaultDriftSettings (Steps.run (trackStep defaultDriftSettings) {}
        [withX 1, withX 2, withoutX 3, withoutX 4]) (withoutX 5)).st.findings,
      f.key = ("$.x", .fieldRemoved) ∧
      Confirmed defaultDriftSettings (trackStep defaultDriftSettings
        (Steps.run (trackStep defaultDriftSettings) {} [withX 1, withX 2, withoutX 3, withoutX 4])
        (withoutX 5)) f.fieldPath f.category := by
  have hmade : (trackStep defaultDriftSettings (Steps.run (trackStep defaultDriftSettings) {}
        [withX 1, withX 2, withoutX 3, withoutX 4]) (withoutX 5)).st.findings.any
      (fun f => f.key = ("$.x", .fieldRemoved)) = true := by rfl
  have hnew : ("$.x", DriftCategory.fieldRemoved) ∉ (Steps.run (trackStep defaultDriftSettings) {}
      [withX 1, withX 2, withoutX 3, withoutX 4]).st.findings.map (·.key) := by decide +kernel
  obtain ⟨f, hf, hkey⟩ := List.any_eq_true.mp hmade
  have hkey := of_decide_eq_true hkey
  exact ⟨f, hf, hkey, drift_confirmed defaultDriftSettings _ _ f hf (hkey ▸ hnew)⟩

/-- A change that meets its gate after a run has an open finding, unless an operator acknowledged
a finding of it or a reset resolved one: that row stays as it is and no other is made. -/
theorem drift_visible (S : DriftSettings) (ops : List DriftOp) (events : List Json) (now : ℕ)
    (hsample : observedSample S events ≠ []) (row : StreamObservedSchema) (base : BatchPaths)
    (hrow : (trackStep S (Steps.run (trackStep S) {} ops) (.observe events now)).st.row = some row)
    (hbase : row.baseline = some base) (path : String) (category : DriftCategory)
    (hgate : Gate S base (observedBatch S events) row.paths path category = true) :
    (∃ f ∈ (trackStep S (Steps.run (trackStep S) {} ops) (.observe events now)).st.findings,
      f.key = (path, category) ∧ f.status = .open) ↔
      (path, category) ∉ (Steps.run (trackStep S) {} ops).closed := by
  have hw := driftInv_run (S := S) ops
  set w := Steps.run (trackStep S) {} ops with hrun
  have hw' : FindingsHold (trackStep S w (.observe events now)).st.findings w.closed :=
    (driftInv_step (S := S) hw (.observe events now)).findings
  have hstep : (trackStep S w (.observe events now)).st =
    observeExtractedEvents S now events w.st := rfl
  obtain ⟨row', st, hrow', -, hbased, -, heq⟩ := observe_row hsample now hw
  obtain rfl := Option.some.inj (hrow'.symm.trans hrow)
  have hne : base ≠ [] := fun h => hbased (h ▸ hbase)
  have hmade : (path, category) ∈
      (trackStep S w (.observe events now)).st.findings.map (·.key) := by
    rw [hstep, heq, hbase, detectFieldChanges_some hne, upserts_keys]
    exact .inr (mem_confirmedChanges.mpr hgate)
  constructor
  · rintro ⟨f, hf, hkey, hopen⟩ hclosed
    exact (hw'.status f hf).mpr (hkey ▸ hclosed) hopen
  · intro hfree
    obtain ⟨f, hf, hkey⟩ := List.mem_map.mp hmade
    refine ⟨f, hf, hkey, ?_⟩
    by_contra hopen
    exact hfree (hkey ▸ (hw'.status f hf).mp hopen)

/-- The member `x` is removed, the baseline reset, and `x` comes back and is removed again. -/
def removedTwice : List DriftOp :=
  [withX 1, withX 2, withoutX 3, withoutX 4, withoutX 5, .reset "op" "vendor upgrade" 6, withX 7,
    withoutX 8, withoutX 9]

/-- Nobody acknowledged anything, the second removal meets its gate, and no finding is open. -/
theorem removedTwice_unseen :
    ((Steps.run (driftStep defaultDriftSettings) {} (removedTwice ++ [withoutX 10])).row.any
      fun row => row.baseline.any fun base =>
        Gate defaultDriftSettings base
          (observedBatch defaultDriftSettings [.obj [("k", .int 1)]]) row.paths "$.x"
          .fieldRemoved) = true ∧
    ¬ ∃ f ∈ (Steps.run (driftStep defaultDriftSettings) {}
        (removedTwice ++ [withoutX 10])).findings,
      f.key = ("$.x", .fieldRemoved) ∧ f.status = .open := by
  decide +kernel

theorem removedOnce_visible :
    (∃ f ∈ (trackStep defaultDriftSettings (Steps.run (trackStep defaultDriftSettings) {}
        [withX 1, withX 2, withoutX 3, withoutX 4]) (.observe [.obj [("k", .int 1)]] 5)).st.findings,
      f.key = ("$.x", .fieldRemoved) ∧ f.status = .open) ↔
    ("$.x", .fieldRemoved) ∉ (Steps.run (trackStep defaultDriftSettings) {}
      [withX 1, withX 2, withoutX 3, withoutX 4]).closed := by
  obtain ⟨row, base, hrow, hbase, hgate⟩ : ∃ row base,
      (trackStep defaultDriftSettings (Steps.run (trackStep defaultDriftSettings) {}
        [withX 1, withX 2, withoutX 3, withoutX 4])
        (.observe [.obj [("k", .int 1)]] 5)).st.row = some row ∧ row.baseline = some base ∧
      Gate defaultDriftSettings base
        (observedBatch defaultDriftSettings [.obj [("k", .int 1)]]) row.paths "$.x"
        .fieldRemoved = true := by
    have hany : ((trackStep defaultDriftSettings (Steps.run (trackStep defaultDriftSettings) {}
        [withX 1, withX 2, withoutX 3, withoutX 4])
        (.observe [.obj [("k", .int 1)]] 5)).st.row.any fun row => row.baseline.any fun base =>
        Gate defaultDriftSettings base
          (observedBatch defaultDriftSettings [.obj [("k", .int 1)]]) row.paths "$.x"
          .fieldRemoved) = true := by rfl
    obtain ⟨row, hrow, hrest⟩ := (Option.any_eq_true _ _).mp hany
    obtain ⟨base, hbase, hgate⟩ := (Option.any_eq_true _ _).mp hrest
    exact ⟨row, base, hrow, hbase, hgate⟩
  exact drift_visible defaultDriftSettings _ _ 5 (by decide +kernel) row base hrow hbase "$.x"
    .fieldRemoved hgate

end SchemaObservation
