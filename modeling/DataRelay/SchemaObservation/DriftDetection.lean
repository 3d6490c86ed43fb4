import DataRelay.SchemaObservation.OccurrenceTracking

/-! Schema observation of one stream: the inventory of paths with their streaks, the baseline,
the findings of field drift, and what operators do with them. -/
namespace SchemaObservation

structure DriftSettings where
  maxEventsPerRun : ℤ
  maxPaths : ℤ
  maxDepth : ℤ
  baselineMinRuns : ℤ
  baselineMinEvents : ℤ
  addedConfirmRuns : ℤ
  removedAbsentRuns : ℤ
  typeChangeConfirmRuns : ℤ

namespace DriftSettings

/-- `max(least, int(setting))`. -/
def atLeast (least : ℕ) (setting : ℤ) : ℕ := (max (least : ℤ) setting).toNat

variable (S : DriftSettings)

def eventLimit : ℕ := atLeast 1 S.maxEventsPerRun
def pathLimit : ℕ := atLeast 100 S.maxPaths
def depthLimit : ℕ := atLeast 4 S.maxDepth
def minRuns : ℕ := atLeast 1 S.baselineMinRuns
def minEvents : ℕ := atLeast 1 S.baselineMinEvents
def addedThreshold : ℕ := atLeast 1 S.addedConfirmRuns
def removedThreshold : ℕ := atLeast 1 S.removedAbsentRuns
def typeThreshold : ℕ := atLeast 1 S.typeChangeConfirmRuns

end DriftSettings

/-- The paths of one run with their inferred types. -/
abbrev BatchPaths := List (String × InferredType)

/-- What is kept of a path. The key `add_confirm_runs` is in every entry the program reads or
makes, so `ensure_pending_add_tracking` finds nothing to do. -/
structure PathMeta where
  type : InferredType
  observationCount : ℕ
  occurrenceCount : Option ℕ := none
  runsSinceSeen : ℕ := 0
  addConfirmRuns : ℕ := 0
  typeChangeConfirmRuns : ℕ := 0
  typeChangeLastBatchType : Option InferredType := none
  deriving DecidableEq

/-- The epoch of exact occurrence counts, `counting_v1`. -/
structure CountingEpoch where
  sampledEvents : ℕ := 0
  historicalEventsExcluded : ℕ
  complete : Bool := true
  warnings : List String := []
  deriving DecidableEq

structure StreamObservedSchema where
  paths : List (String × PathMeta)
  counting : Option CountingEpoch := none
  baseline : Option BatchPaths := none
  baselineVersion : ℕ := 1
  baselineResetBy : Option String := none
  baselineResetReason : Option String := none
  totalEventsObserved : ℕ
  observationRunCount : ℕ
  deriving DecidableEq

inductive DriftCategory where
  | fieldAdded
  | fieldRemoved
  | fieldTypeChanged
  deriving DecidableEq, Repr

inductive DriftStatus where
  | open
  | acknowledged
  | resolved
  deriving DecidableEq, Repr

structure StreamSchemaFieldDrift where
  id : ℕ
  fieldPath : String
  category : DriftCategory
  status : DriftStatus := .open
  firstDetectedAt : ℕ
  lastConfirmedAt : ℕ
  acknowledgedAt : Option ℕ := none
  acknowledgedBy : Option String := none
  resolvedAt : Option ℕ := none
  resolvedBy : Option String := none
  operatorNote : Option String := none
  resolution : Option String := none
  deriving DecidableEq

/-- What the unique constraint of the findings is on. -/
def StreamSchemaFieldDrift.key (f : StreamSchemaFieldDrift) : String × DriftCategory :=
  (f.fieldPath, f.category)

/-- The tables of one stream. -/
structure DriftState where
  row : Option StreamObservedSchema := none
  findings : List StreamSchemaFieldDrift := []
  nextId : ℕ := 1
  deriving DecidableEq

section Inventory

/-- `_next_counting_epoch`. -/
def nextCountingEpoch (previous : Option CountingEpoch) (oldTotalEvents : ℕ)
    (evidence : OccurrenceBatch) : CountingEpoch :=
  let epoch := previous.getD { historicalEventsExcluded := oldTotalEvents }
  { epoch with
    sampledEvents := epoch.sampledEvents + evidence.sampledEvents
    complete := epoch.complete && evidence.complete
    warnings := (SampleWarning.all.map SampleWarning.text).filter fun w =>
      decide (w ∈ epoch.warnings ∨ w ∈ evidence.warnings) }

/-- One path of a batch in `merge_path_inventories`. -/
def mergeEntry (eventsInBatch : ℕ) (counts : List (String × ℕ)) (path : String)
    (type : InferredType) (entry : Option PathMeta) : Except String PathMeta :=
  let exact := (Dict.get? path counts).getD 0
  if ¬ exact ≤ eventsInBatch then
    .error "Field occurrence count must be a per-event presence count"
  else
    match entry with
    | none => .ok { type, observationCount := eventsInBatch, occurrenceCount := some exact }
    | some entry =>
      .ok { entry with
            type := mergeInferredTypes (some entry.type) type
            observationCount := entry.observationCount + eventsInBatch
            occurrenceCount := some (entry.occurrenceCount.getD 0 + exact) }

/-- The loop of `merge_path_inventories`. -/
def mergeEntries (eventsInBatch : ℕ) (counts : List (String × ℕ)) : BatchPaths →
    List (String × PathMeta) → Except String (List (String × PathMeta))
  | [], merged => .ok merged
  | (path, type) :: batch, merged => do
    let entry ← mergeEntry eventsInBatch counts path type (Dict.get? path merged)
    mergeEntries eventsInBatch counts batch (Dict.set path entry merged)

/-- `merge_path_inventories`. -/
def mergePathInventories (existing : List (String × PathMeta)) (batch : BatchPaths)
    (eventsInBatch : ℕ) (counts : List (String × ℕ)) : Except String (List (String × PathMeta)) :=
  mergeEntries eventsInBatch counts batch
    (Dict.mapValues (fun _ m => { m with occurrenceCount := some (m.occurrenceCount.getD 0) })
      existing)

/-- `update_path_presence_streaks`. -/
def updatePathPresenceStreaks (batch : BatchPaths) (observed : List (String × PathMeta)) :
    List (String × PathMeta) :=
  Dict.mapValues (fun path m =>
    if path ∈ batch.map Prod.fst then
      { m with runsSinceSeen := 0, addConfirmRuns := m.addConfirmRuns + 1 }
    else { m with runsSinceSeen := m.runsSinceSeen + 1, addConfirmRuns := 0 }) observed

/-- `_is_primitive_type_change`. -/
def isPrimitiveTypeChange (baselineType currentType : InferredType) : Bool :=
  baselineType ≠ currentType && baselineType ≠ .null && baselineType ≠ .mixed &&
    currentType ≠ .null && currentType ≠ .mixed

/-- `update_type_change_streaks`. -/
def updateTypeChangeStreaks (baseline batch : BatchPaths) (observed : List (String × PathMeta)) :
    List (String × PathMeta) :=
  Dict.mapValues (fun path m =>
    match Dict.get? path baseline, Dict.get? path batch with
    | none, _ => m
    | some _, none => { m with typeChangeConfirmRuns := 0, typeChangeLastBatchType := none }
    | some baselineType, some batchType =>
      if isPrimitiveTypeChange baselineType batchType then
        { m with typeChangeConfirmRuns := m.typeChangeConfirmRuns + 1
                 typeChangeLastBatchType := some batchType }
      else { m with typeChangeConfirmRuns := 0, typeChangeLastBatchType := none }) observed

/-- The paths with their types, as a baseline keeps them. -/
def baselineOf (observed : List (String × PathMeta)) : BatchPaths :=
  observed.map fun m => (m.1, m.2.type)

/-- `_paths_from_row` keeps no last batch type. -/
def pathsFromRow (paths : List (String × PathMeta)) : List (String × PathMeta) :=
  Dict.mapValues (fun _ m => { m with typeChangeLastBatchType := none }) paths

end Inventory

section Detection

variable (S : DriftSettings)

/-- `maybe_establish_baseline`. -/
def maybeEstablishBaseline (row : StreamObservedSchema) (observed : List (String × PathMeta)) :
    StreamObservedSchema :=
  if row.baseline.isSome ∨ row.observationRunCount < S.minRuns ∨
      row.totalEventsObserved < S.minEvents ∨ observed = [] then row
  else { row with baseline := some (baselineOf observed) }

/-- The gate of a category, as the three loops of `detect_field_changes` have it. -/
def Gate (baseline batch : BatchPaths) (observed : List (String × PathMeta)) (path : String) :
    DriftCategory → Bool
  | .fieldAdded =>
    Dict.has path batch && !Dict.has path baseline &&
      (Dict.get? path observed).any fun m => S.addedThreshold ≤ m.addConfirmRuns
  | .fieldRemoved =>
    Dict.has path baseline &&
      (Dict.get? path observed).any fun m => S.removedThreshold ≤ m.runsSinceSeen
  | .fieldTypeChanged =>
    match Dict.get? path baseline, Dict.get? path batch with
    | some baselineType, some batchType =>
      isPrimitiveTypeChange baselineType batchType &&
        (Dict.get? path observed).any fun m => S.typeThreshold ≤ m.typeChangeConfirmRuns
    | _, _ => false

/-- The changes that are confirmed, in the order of the loops. -/
def confirmedChanges (baseline batch : BatchPaths) (observed : List (String × PathMeta)) :
    List (String × DriftCategory) :=
  let confirmed (category : DriftCategory) (paths : BatchPaths) : List (String × DriftCategory) :=
    ((paths.map Prod.fst).filter fun path => Gate S baseline batch observed path category).map
      fun path => (path, category)
  confirmed .fieldAdded batch ++ confirmed .fieldRemoved baseline ++
    confirmed .fieldTypeChanged baseline

/-- `_upsert_open_drift`. -/
def upsertOpenDrift (now : ℕ) (st : DriftState) (change : String × DriftCategory) : DriftState :=
  match st.findings.find? fun f => f.key = change with
  | none =>
    { st with
      findings := st.findings ++ [{ id := st.nextId, fieldPath := change.1, category := change.2
                                    firstDetectedAt := now, lastConfirmedAt := now }]
      nextId := st.nextId + 1 }
  | some f =>
    if f.status ≠ .open then st
    else
      { st with
        findings := st.findings.map fun g =>
          if g.key = change then { g with lastConfirmedAt := now } else g }

/-- `detect_field_changes`. -/
def detectFieldChanges (now : ℕ) (baseline : Option BatchPaths) (batch : BatchPaths)
    (observed : List (String × PathMeta)) (st : DriftState) : DriftState :=
  match baseline with
  | none | some [] => st
  | some baseline => (confirmedChanges S baseline batch observed).foldl (upsertOpenDrift now) st

/-- The inventory `_finalize_observation_row` ends with. -/
def streaked (baseline : Option BatchPaths) (batch : BatchPaths)
    (merged : List (String × PathMeta)) : List (String × PathMeta) :=
  updateTypeChangeStreaks (baseline.getD []) batch (updatePathPresenceStreaks batch merged)

/-- `_finalize_observation_row`, with drift detection on. -/
def finalizeObservationRow (now : ℕ) (row : StreamObservedSchema)
    (merged : List (String × PathMeta)) (batch : BatchPaths) (st : DriftState) : DriftState :=
  let row := maybeEstablishBaseline S row (updatePathPresenceStreaks batch merged)
  let observed := streaked row.baseline batch merged
  detectFieldChanges S now row.baseline batch observed
    { st with row := some { row with paths := observed } }

end Detection

section Operations

variable (S : DriftSettings)

/-- The events a run looks at. -/
def observedSample (events : List Json) : List Json :=
  (events.filter fun event =>
    match event with
    | .obj _ => true
    | _ => false).take S.eventLimit

def observedBatch (events : List Json) : BatchPaths :=
  collectPathsFromEvents S.depthLimit S.pathLimit S.eventLimit (observedSample S events)

/-- The evidence of a run. -/
def observedEvidence (events : List Json) : OccurrenceBatch :=
  let valid := events.filter fun event =>
    match event with
    | .obj _ => true
    | _ => false
  collectOccurrenceBatch (observedSample S events) (observedBatch S events) S.depthLimit S.pathLimit
    (decide ((observedSample S events).length < valid.length)) (valid.length ≠ events.length)

/-- `observe_extracted_events`; an exception leaves the tables as they were. -/
def observeExtractedEvents (now : ℕ) (events : List Json) (st : DriftState) : DriftState :=
  let sample := observedSample S events
  let batch := observedBatch S events
  let evidence := observedEvidence S events
  if sample = [] then st
  else
    match st.row with
    | none =>
      match mergePathInventories [] batch sample.length evidence.presentByPath with
      | .error _ => st
      | .ok merged =>
        let initial := Dict.mapValues (fun _ m => { m with addConfirmRuns := 1 }) merged
        finalizeObservationRow S now
          { paths := initial
            counting := some (nextCountingEpoch none 0 evidence)
            totalEventsObserved := sample.length
            observationRunCount := 1 } initial batch st
    | some row =>
      match mergePathInventories (pathsFromRow row.paths) batch sample.length
          evidence.presentByPath with
      | .error _ => st
      | .ok merged =>
        finalizeObservationRow S now
          { row with
            paths := merged
            counting := some (nextCountingEpoch row.counting row.totalEventsObserved evidence)
            totalEventsObserved := row.totalEventsObserved + sample.length
            observationRunCount := row.observationRunCount + 1 } merged batch st

inductive DriftError where
  | findingNotFound (id : ℕ)
  | findingState (message : String)
  | observedSchemaNotFound
  deriving DecidableEq

/-- The finding after `acknowledge_field_drift`. -/
def StreamSchemaFieldDrift.acknowledge (f : StreamSchemaFieldDrift) (actor : String)
    (note : Option String) (now : ℕ) : StreamSchemaFieldDrift :=
  { f with
    status := .acknowledged
    acknowledgedAt := some now
    acknowledgedBy := some actor
    operatorNote := ((note.map PyText.strip).filter (!·.isEmpty)).or f.operatorNote }

def DriftStatus.text : DriftStatus → String
  | .open => "open"
  | .acknowledged => "acknowledged"
  | .resolved => "resolved"

/-- `acknowledge_field_drift`. -/
def acknowledgeFieldDrift (findingId : ℕ) (actor : String) (note : Option String) (now : ℕ)
    (st : DriftState) : Except DriftError DriftState :=
  match st.findings.find? fun f => f.id = findingId with
  | none => .error (.findingNotFound findingId)
  | some f =>
    if f.status ≠ .open then
      .error (.findingState ("finding " ++ toString findingId ++
        " cannot be acknowledged from status '" ++ f.status.text ++ "'"))
    else
      .ok { st with
            findings := st.findings.map fun g =>
              if g.id = findingId then g.acknowledge actor note now else g }

/-- The finding after a reset. -/
def StreamSchemaFieldDrift.resolve (f : StreamSchemaFieldDrift) (actor : String) (now : ℕ) :
    StreamSchemaFieldDrift :=
  { f with
    status := .resolved
    resolvedAt := some now
    resolvedBy := some actor
    resolution := some "baseline_reset" }

/-- `reset_schema_baseline`. -/
def resetSchemaBaseline (actor reason : String) (now : ℕ) (st : DriftState) :
    Except DriftError DriftState :=
  match st.row with
  | none => .error .observedSchemaNotFound
  | some row =>
    let observed := pathsFromRow row.paths
    if observed = [] then .error (.findingState "cannot reset baseline without observed paths")
    else
      .ok { st with
            row := some { row with
              baseline := some (baselineOf observed)
              baselineVersion := row.baselineVersion + 1
              baselineResetBy := some actor
              baselineResetReason :=
                if (PyText.strip reason).isEmpty then none else some (PyText.strip reason)
              paths := Dict.mapValues (fun _ m =>
                { m with runsSinceSeen := 0, addConfirmRuns := 0, typeChangeConfirmRuns := 0 })
                observed }
            findings := st.findings.map fun f =>
              if f.status = .open then f.resolve actor now else f }

/-- What happens to a stream's schema. -/
inductive DriftOp where
  | observe (events : List Json) (now : ℕ)
  | acknowledge (findingId : ℕ) (actor : String) (note : Option String) (now : ℕ)
  | reset (actor reason : String) (now : ℕ)

/-- A refused operation leaves the tables as they were. -/
def driftStep (st : DriftState) : DriftOp → DriftState
  | .observe events now => observeExtractedEvents S now events st
  | .acknowledge findingId actor note now =>
    ((acknowledgeFieldDrift findingId actor note now st).toOption).getD st
  | .reset actor reason now => ((resetSchemaBaseline actor reason now st).toOption).getD st

end Operations

end SchemaObservation
