import DataRelay.Dedup.Queue

/-! The dedup registry: the rows successful route sends leave in the delivery log, and the
seed keys a later run reads back from them. -/
namespace Dedup
open Delivery

def dedupRegistryStage : String := "dedup_registry"
def registryRecordStage : String := "delivery_success"

/-- `extract_delivered_dedup_entries`. -/
def extractDeliveredDedupEntries (events : List Event) : List (String × Option ℤ) :=
  events.filterMap fun (event : Event) =>
    match Dict.get? gdcDedupKeyMeta event with
    | some (.str key) =>
      if (PyText.strip key).isEmpty then none
      else some (PyText.strip key,
        match Dict.get? gdcDedupQueueIdMeta event with
        | some (.int i) => some i
        | _ => none)
    | _ => none

def DuplicateHandling.name : DuplicateHandling → String
  | .skipDuplicate => "skip_duplicate"
  | .keepLatest => "keep_latest"
  | .keepFirst => "keep_first"

def Scope.name : Scope → String
  | .currentRun => "current_run"
  | .checkpointWindow => "checkpoint_window"
  | .lastNHours => "last_n_hours"

def DedupSummary.toDict (s : DedupSummary) : Json.Members :=
  [("total_events", .int s.totalEvents), ("inserted", .int s.inserted),
   ("duplicate_events", .int s.duplicateEvents),
   ("duplicate_by_event_id", .int s.duplicateByEventId),
   ("duplicate_by_stellar_uuid", .int s.duplicateByStellarUuid),
   ("duplicate_by_custom_key", .int s.duplicateByCustomKey),
   ("duplicate_by_id", .int s.duplicateById),
   ("duplicate_handling", .str s.duplicateHandling.name),
   ("dedup_scope", .str s.dedupScope.name),
   ("registry_seed_duplicates", .int s.registrySeedDuplicates),
   ("current_run_duplicates", .int s.currentRunDuplicates),
   ("registry_recorded", .int s.registryRecorded),
   ("registry_skipped", .int s.registrySkipped),
   ("registry_record_stage", optStr s.registryRecordStage)]

/-- The keys one successful send records: those of its events, else all the run inserted. -/
def deliveredEntries (record : RegistryRecord) (summary : DedupSummary) :
    List (String × Option ℤ) :=
  let delivered := extractDeliveredDedupEntries record.routeEvents
  if delivered.isEmpty then summary.insertedKeys.map (·, none) else delivered

def registryRecordPayload (streamId : ℤ) (record : RegistryRecord)
    (entry : String × Option ℤ) : LogPayload :=
  [("stage", .str "dedup_registry_record"), ("stream_id", .int streamId),
   ("route_id", .int record.routeId), ("destination_id", optInt record.destinationId),
   ("dedup_key", .str entry.1), ("queue_id", optInt entry.2),
   ("destination", optStr record.destination), ("delivery_success", .bool true),
   ("registry_recorded", .bool true), ("level", .str "DEBUG")]

def dedupRegistryPayload (streamId : ℤ) (record : RegistryRecord) (summary : DedupSummary)
    (dedupKeys : List String) : LogPayload :=
  [("stage", .str dedupRegistryStage), ("dedup_keys", .arr (dedupKeys.map .str)),
   ("dedup_summary", .obj summary.toDict), ("stream_id", .int streamId),
   ("route_id", .int record.routeId)] ++
    (record.destinationId.map fun d => ("destination_id", Json.int d)).toList

/-- The summary after `dedupKeys` have been recorded; the recorded keys are a set. -/
def DedupSummary.markRecorded (summary : DedupSummary) (dedupKeys : List String) :
    DedupSummary :=
  let recorded := dedupKeys.foldl (fun ks k => if k ∈ ks then ks else ks ++ [k])
    summary.recordedRegistryKeys
  { summary with
    recordedRegistryKeys := recorded
    registryRecorded := recorded.length
    registryRecordStage := some Dedup.registryRecordStage
    registrySkipped := summary.insertedKeys.length - recorded.length }

/-- `record_dedup_registry_for_route_success`: the updated summary and what is logged. -/
def recordDedupRegistryForRouteSuccess (streamId : ℤ) (record : RegistryRecord)
    (summary : DedupSummary) : DedupSummary × List LogPayload :=
  if (deliveredEntries record summary).isEmpty then (summary, [])
  else
    let dedupKeys := (deliveredEntries record summary).map Prod.fst
    let marked := summary.markRecorded dedupKeys
    (marked, (deliveredEntries record summary).map (registryRecordPayload streamId record) ++
      [dedupRegistryPayload streamId record marked dedupKeys])

/-- A committed delivery-log row of the stream. -/
structure DeliveryLogRow where
  createdAt : ℤ
  payload : LogPayload
  deriving DecidableEq

def DeliveryLogRow.isRegistry (row : DeliveryLogRow) : Bool :=
  Dict.get? "stage" row.payload = some (.str dedupRegistryStage)

/-- The texts under `dedup_keys`; the recorder writes strings only. -/
def DeliveryLogRow.dedupKeys (row : DeliveryLogRow) : List String :=
  match Dict.get? "dedup_keys" row.payload with
  | some (.arr items) =>
    items.filterMap fun item =>
      match item with
      | .str s => if (PyText.strip s).isEmpty then none else some (PyText.strip s)
      | _ => none
  | _ => []

/-- `_scope_since`, with the checkpoint row's `updated_at` as its fallback. -/
def scopeSince (config : StreamDedupConfig) (now : ℤ) (checkpointUpdatedAt : Option ℤ) :
    Option ℤ :=
  match config.scope with
  | .currentRun => none
  | .checkpointWindow => checkpointUpdatedAt
  | .lastNHours =>
    let hours := match config.windowHours with
      | some h => if 0 < h then h else 24
      | none => 24
    some (now - hours * 3600)

/-- `load_dedup_seed_keys` over the rows in id order: the newest 500 in scope. -/
def loadDedupSeedKeys (config : StreamDedupConfig) (now : ℤ) (checkpointUpdatedAt : Option ℤ)
    (rows : List DeliveryLogRow) : List String :=
  match config.scope with
  | .currentRun => []
  | _ =>
    let since := scopeSince config now checkpointUpdatedAt
    let inScope := rows.filter fun row =>
      row.isRegistry && since.all fun t => decide (t ≤ row.createdAt)
    (inScope.reverse.take 500).flatMap DeliveryLogRow.dedupKeys

/-- `apply_stream_dedup`. -/
def applyStreamDedup (extractOne : Event → String → Option Json) (config : StreamDedupConfig)
    (applyDedup : Bool) (seedKeys : List String) (events : List Event) :
    List Event × Option StreamDedupQueue :=
  if !applyDedup || !config.enabled || events.isEmpty then (events, none)
  else
    let queue := StreamDedupQueue.ingest extractOne config seedKeys events
    (queue.events, some queue)

/-- A seed was read from a registry row. -/
theorem mem_loadDedupSeedKeys {config : StreamDedupConfig} {now : ℤ}
    {checkpointUpdatedAt : Option ℤ} {rows : List DeliveryLogRow} {k : String}
    (h : k ∈ loadDedupSeedKeys config now checkpointUpdatedAt rows) :
    ∃ row ∈ rows, row.isRegistry = true ∧ k ∈ row.dedupKeys := by
  have hscope {since : Option ℤ} (h : k ∈ ((rows.filter fun row => row.isRegistry &&
      since.all fun t => decide (t ≤ row.createdAt)).reverse.take 500).flatMap
        DeliveryLogRow.dedupKeys) : ∃ row ∈ rows, row.isRegistry = true ∧ k ∈ row.dedupKeys := by
    obtain ⟨row, hrow, hk⟩ := List.mem_flatMap.mp h
    have hmem := List.mem_reverse.mp (List.mem_of_mem_take hrow)
    rw [List.mem_filter, Bool.and_eq_true] at hmem
    exact ⟨row, hmem.1, hmem.2.1, hk⟩
  unfold loadDedupSeedKeys at h
  cases hs : config.scope with
  | currentRun => simp [hs] at h
  | checkpointWindow => exact hscope (by simpa only [hs] using h)
  | lastNHours => exact hscope (by simpa only [hs] using h)

/-- An extracted key carries no outer blanks. -/
theorem strip_of_extractDedupKey {extractOne : Event → String → Option Json}
    {config : StreamDedupConfig} {event : Event} {key source : String}
    (h : extractDedupKey extractOne event config = some (key, source)) :
    PyText.strip key = key := by
  have hnorm {v : Json} {k : String} (hv : normalizeKeyValue v = some k) :
      PyText.strip k = k := by
    unfold normalizeKeyValue at hv
    split at hv
    · cases hv
    · rw [Option.ite_none_left_eq_some, Option.some.injEq] at hv
      rw [← hv.2, PyText.strip_strip]
  have hraw {raw : Option Json} {src : String}
      (hr : (raw.bind fun v => (normalizeKeyValue v).map (·, src)) = some (key, source)) :
      PyText.strip key = key := by
    obtain ⟨v, -, hv⟩ := Option.bind_eq_some_iff.mp hr
    obtain ⟨k, hk, heq⟩ := Option.map_eq_some_iff.mp hv
    obtain ⟨rfl, -⟩ := Prod.mk.inj heq
    exact hnorm hk
  unfold extractDedupKey at h
  simp only at h
  split at h
  · obtain ⟨path, -, hp⟩ := Option.bind_eq_some_iff.mp h
    exact hraw hp
  · split at h
    · next k hk =>
      obtain ⟨a, -, ha⟩ := List.exists_of_findSome?_eq_some hk
      obtain ⟨v, -, hv⟩ := Option.bind_eq_some_iff.mp ha
      obtain ⟨rfl, -⟩ := Prod.mk.inj (Option.some.inj h)
      exact hnorm hv
    · split at h
      · exact hraw h
      · cases h

/-- The only registry row a successful send leaves lists keys of its own entries. -/
theorem recordRegistry_keys {streamId : ℤ} {record : RegistryRecord} {summary : DedupSummary}
    {t : ℤ} {p : LogPayload}
    (hp : p ∈ (recordDedupRegistryForRouteSuccess streamId record summary).2)
    (hr : (⟨t, p⟩ : DeliveryLogRow).isRegistry = true) {k : String}
    (hk : k ∈ (⟨t, p⟩ : DeliveryLogRow).dedupKeys) :
    ∃ entry ∈ deliveredEntries record summary, k = PyText.strip entry.1 := by
  unfold recordDedupRegistryForRouteSuccess at hp
  split_ifs at hp
  · simp at hp
  · rcases List.mem_append.mp hp with hp | hp
    · obtain ⟨entry, -, rfl⟩ := List.mem_map.mp hp
      simp [DeliveryLogRow.isRegistry, registryRecordPayload, dedupRegistryStage] at hr
    · obtain rfl := List.mem_singleton.mp hp
      simp only [DeliveryLogRow.dedupKeys, dedupRegistryPayload, List.cons_append, Dict.get?_cons,
        String.reduceEq, ↓reduceIte, List.mem_filterMap] at hk
      obtain ⟨item, hitem, hk⟩ := hk
      simp only [List.map_map, List.mem_map, Function.comp_apply] at hitem
      obtain ⟨entry, hentry, rfl⟩ := hitem
      simp only [Option.ite_none_left_eq_some, Option.some.injEq] at hk
      exact ⟨entry, hentry, hk.2.symm⟩

/-- Recording changes neither the inserted keys nor, hence, the fallback of later sends. -/
@[simp] theorem recordRegistry_insertedKeys (streamId : ℤ) (record : RegistryRecord)
    (summary : DedupSummary) :
    (recordDedupRegistryForRouteSuccess streamId record summary).1.insertedKeys =
      summary.insertedKeys := by
  unfold recordDedupRegistryForRouteSuccess
  split_ifs <;> rfl

end Dedup
