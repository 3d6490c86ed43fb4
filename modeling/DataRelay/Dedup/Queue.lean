import DataRelay.Lib.PyText
import DataRelay.Delivery.SendRoute

/-! Stream deduplication at queue insert: key extraction and the in-memory queue of one
run, with the registry keys of earlier runs as seeds. -/
namespace Dedup
open Delivery

inductive DuplicateHandling where
  | skipDuplicate
  | keepLatest
  | keepFirst
  deriving DecidableEq, Repr

inductive Scope where
  | currentRun
  | checkpointWindow
  | lastNHours
  deriving DecidableEq, Repr

structure StreamDedupConfig where
  enabled : Bool := false
  keyField : String := "event_id"
  customJsonpath : Option String := none
  duplicateHandling : DuplicateHandling := .skipDuplicate
  scope : Scope := .currentRun
  windowHours : Option ℕ := none
  deriving DecidableEq, Repr

def gdcDedupKeyMeta : String := "__gdc_dedup_key"
def gdcDedupQueueIdMeta : String := "__gdc_dedup_queue_id"

def keyFieldAliases (keyField : String) : List String :=
  if keyField = "event_id" then ["event_id"]
  else if keyField = "stellar_uuid" then ["stellar_uuid", "stellarUuid"]
  else if keyField = "id" then ["id"]
  else [keyField]

/-- `str(value)` of a scalar. -/
def scalarText : Json → Option String
  | .str s => some s
  | .int i => some (toString i)
  | .float repr => some repr
  | .bool b => some (if b then "True" else "False")
  | _ => none

def normalizeKeyValue (value : Json) : Option String :=
  match scalarText value with
  | none => none
  | some s => if (PyText.strip s).isEmpty then none else some (PyText.strip s)

/-- `extract_dedup_key`; `extractOne` is the JSONPath lookup, `none` when it finds nothing
or raises. -/
def extractDedupKey (extractOne : Event → String → Option Json) (event : Event)
    (config : StreamDedupConfig) : Option (String × String) :=
  let keyField := PyText.strip config.keyField
  if keyField = "custom_jsonpath" then
    config.customJsonpath.bind fun path =>
      (extractOne event path).bind fun raw =>
        (normalizeKeyValue raw).map (·, "custom_jsonpath")
  else
    match (keyFieldAliases keyField).findSome?
        fun a => (Dict.get? a event).bind normalizeKeyValue with
    | some key => some (key, keyField)
    | none =>
      if keyField.toList.contains '.' || keyField.toList.head? = some '$' then
        (extractOne event (if keyField.toList.head? = some '$' then keyField
          else "$." ++ keyField)).bind fun raw => (normalizeKeyValue raw).map (·, keyField)
      else none

structure DedupQueueEntry where
  queueId : ℕ
  dedupKey : String
  event : Event
  keySource : String
  deriving DecidableEq

structure DedupSummary where
  totalEvents : ℕ := 0
  inserted : ℕ := 0
  duplicateEvents : ℕ := 0
  duplicateByEventId : ℕ := 0
  duplicateByStellarUuid : ℕ := 0
  duplicateById : ℕ := 0
  duplicateByCustomKey : ℕ := 0
  duplicateHandling : DuplicateHandling := .skipDuplicate
  dedupScope : Scope := .currentRun
  insertedKeys : List String := []
  registrySeedDuplicates : ℕ := 0
  currentRunDuplicates : ℕ := 0
  registryRecorded : ℕ := 0
  registrySkipped : ℕ := 0
  registryRecordStage : Option String := none
  recordedRegistryKeys : List String := []
  deriving DecidableEq, Repr

/-- Why an event was suppressed. -/
inductive DuplicateReason where
  | keyInCurrentRun
  | keyInScopeRegistry
  | keepLatestReplace
  deriving DecidableEq, Repr

structure DuplicateLog where
  dedupKey : String
  reason : DuplicateReason
  queueId : Option ℕ
  keySource : String
  event : Event
  deriving DecidableEq

structure StreamDedupQueue where
  keyToIndex : List (String × ℕ) := []
  entries : List DedupQueueEntry := []
  nextQueueId : ℕ := 1
  summary : DedupSummary := {}
  duplicates : List DuplicateLog := []
  deriving DecidableEq

def attachDedupMetadata (event : Event) (key : Option String) (queueId : ℕ) : Event :=
  match key with
  | some k =>
    Dict.set gdcDedupQueueIdMeta (.int queueId) (Dict.set gdcDedupKeyMeta (.str k) event)
  | none => event

def incDuplicateCounter (summary : DedupSummary) (keySource : String) : DedupSummary :=
  let summary := { summary with duplicateEvents := summary.duplicateEvents + 1 }
  if keySource = "event_id" then
    { summary with duplicateByEventId := summary.duplicateByEventId + 1 }
  else if keySource = "stellar_uuid" then
    { summary with duplicateByStellarUuid := summary.duplicateByStellarUuid + 1 }
  else if keySource = "id" then { summary with duplicateById := summary.duplicateById + 1 }
  else if keySource = "custom_jsonpath" then
    { summary with duplicateByCustomKey := summary.duplicateByCustomKey + 1 }
  else summary

def countDuplicate (summary : DedupSummary) (keySource : String) (inSeed inRun : Bool) :
    DedupSummary :=
  let summary := incDuplicateCounter summary keySource
  { summary with
    registrySeedDuplicates := summary.registrySeedDuplicates + inSeed.toNat
    currentRunDuplicates := summary.currentRunDuplicates + inRun.toNat }

namespace StreamDedupQueue

def insertNew (q : StreamDedupQueue) (event : Event) (key : Option (String × String)) :
    StreamDedupQueue where
  keyToIndex :=
    match key with
    | some (k, _) => (k, q.entries.length) :: q.keyToIndex
    | none => q.keyToIndex
  entries := q.entries ++
    [{ queueId := q.nextQueueId
       dedupKey := (key.map Prod.fst).getD ("__no_key_" ++ toString q.nextQueueId)
       event := attachDedupMetadata event (key.map Prod.fst) q.nextQueueId
       keySource := (key.map Prod.snd).getD "none" }]
  nextQueueId := q.nextQueueId + 1
  summary := { q.summary with
    inserted := q.summary.inserted + 1
    insertedKeys := q.summary.insertedKeys ++ (key.map Prod.fst).toList }
  duplicates := q.duplicates

/-- `keep_latest` puts a later event of the run in the place of the earlier one. -/
def replaceEntry (q : StreamDedupQueue) (idx : ℕ) (event : Event) (key keySource : String) :
    StreamDedupQueue :=
  match q.entries[idx]? with
  | none => q
  | some old =>
    { q with
      entries := q.entries.set idx
        { queueId := old.queueId, dedupKey := key, keySource
          event := attachDedupMetadata event (some key) old.queueId }
      duplicates := q.duplicates ++ [⟨key, .keepLatestReplace, some old.queueId, keySource, event⟩] }

/-- One turn of the loop in `StreamDedupQueue.ingest`. -/
def ingestOne (extractOne : Event → String → Option Json) (config : StreamDedupConfig)
    (seedKeys : List String) (q : StreamDedupQueue) (event : Event) : StreamDedupQueue :=
  match extractDedupKey extractOne event config with
  | none => q.insertNew event none
  | some (key, source) =>
    let inSeed := decide (key ∈ seedKeys)
    match q.keyToIndex.lookup key, inSeed with
    | none, false => q.insertNew event (some (key, source))
    | none, true =>
      { q with
        summary := countDuplicate q.summary source true false
        duplicates := q.duplicates ++ [⟨key, .keyInScopeRegistry, none, source, event⟩] }
    | some idx, inSeed =>
      let summary := countDuplicate q.summary source inSeed true
      if config.duplicateHandling = .keepLatest then
        { q with summary }.replaceEntry idx event key source
      else
        { q with
          summary
          duplicates := q.duplicates ++ [⟨key, .keyInCurrentRun, some idx, source, event⟩] }

def ingest (extractOne : Event → String → Option Json) (config : StreamDedupConfig)
    (seedKeys : List String) (events : List Event) : StreamDedupQueue :=
  events.foldl (ingestOne extractOne config seedKeys)
    { summary := {
        totalEvents := events.length
        duplicateHandling := config.duplicateHandling
        dedupScope := config.scope } }

/-- The events `ingest` hands back. -/
def events (q : StreamDedupQueue) : List Event := q.entries.map (·.event)

end StreamDedupQueue

section Invariant

variable {extractOne : Event → String → Option Json} {config : StreamDedupConfig}
  {seedKeys : List String} {seen : List Event} {q : StreamDedupQueue}

/-- The entry was made from `event`, whose key is `key`. -/
def KeyedBy (extractOne : Event → String → Option Json) (config : StreamDedupConfig)
    (key : String) (event : Event) (x : DedupQueueEntry) : Prop :=
  (∃ s, extractDedupKey extractOne event config = some (key, s)) ∧ x.dedupKey = key ∧
    x.event = attachDedupMetadata event (some key) x.queueId

/-- What `ingest` keeps true of the queue after the events `seen`: suppressed events are
blamed rightly, inserted keys stay queued, and an entry carries an inserted key or was
taken over untouched. -/
structure QueueInv (extractOne : Event → String → Option Json) (config : StreamDedupConfig)
    (seedKeys : List String) (seen : List Event) (q : StreamDedupQueue) : Prop where
  seeded : ∀ d ∈ q.duplicates, d.reason = .keyInScopeRegistry →
    d.dedupKey ∈ seedKeys ∧ d.event ∈ seen ∧
      ∃ s, extractDedupKey extractOne d.event config = some (d.dedupKey, s)
  inserted : ∀ k, k ∈ q.summary.insertedKeys ↔ ∃ i, (k, i) ∈ q.keyToIndex
  indexed : ∀ p ∈ q.keyToIndex, ∃ x ∈ q.entries[p.2]?, ∃ e ∈ seen,
    KeyedBy extractOne config p.1 e x
  origin : ∀ x ∈ q.entries, ∃ e ∈ seen,
    (∃ k ∈ q.summary.insertedKeys, KeyedBy extractOne config k e x) ∨
      (extractDedupKey extractOne e config = none ∧ x.event = e)

theorem queueInv_empty (summary : DedupSummary) (h : summary.insertedKeys = []) :
    QueueInv extractOne config seedKeys [] { summary } :=
  ⟨by simp, by simp [h], by simp, by simp⟩

theorem mem_of_lookup {α β : Type} [BEq α] [LawfulBEq α] {k : α} {v : β} {l : List (α × β)}
    (h : l.lookup k = some v) : (k, v) ∈ l := by
  obtain ⟨l₁, l₂, rfl, -⟩ := List.lookup_eq_some_iff.mp h
  simp

theorem QueueInv.insertNew (h : QueueInv extractOne config seedKeys seen q) {event : Event}
    {key : Option (String × String)} (hkey : extractDedupKey extractOne event config = key) :
    QueueInv extractOne config seedKeys (seen ++ [event]) (q.insertNew event key) := by
  have hlast : event ∈ seen ++ [event] := by simp
  have hseen {e : Event} (he : e ∈ seen) : e ∈ seen ++ [event] := List.mem_append_left _ he
  have hold {i : ℕ} {x : DedupQueueEntry} (hx : x ∈ q.entries[i]?) :
      x ∈ (q.insertNew event key).entries[i]? := by
    obtain ⟨hi, rfl⟩ := List.getElem?_eq_some_iff.mp hx
    simp [StreamDedupQueue.insertNew, List.getElem?_append_left hi]
  refine ⟨?_, ?_, ?_, ?_⟩
  · intro d hd hr
    obtain ⟨hs, he, hk⟩ := h.seeded d hd hr
    exact ⟨hs, hseen he, hk⟩
  · intro k
    cases key with
    | none => simpa [StreamDedupQueue.insertNew] using h.inserted k
    | some ks =>
      simp only [StreamDedupQueue.insertNew, Option.map_some, Option.toList_some, List.mem_append,
        List.mem_cons, Prod.mk.injEq, exists_or, h.inserted k]
      simp [or_comm]
  · intro p hp
    have hprev (hp : p ∈ q.keyToIndex) : ∃ x ∈ (q.insertNew event key).entries[p.2]?,
        ∃ e ∈ seen ++ [event], KeyedBy extractOne config p.1 e x := by
      obtain ⟨x, hx, e, he, hke⟩ := h.indexed p hp
      exact ⟨x, hold hx, e, hseen he, hke⟩
    cases key with
    | none => exact hprev hp
    | some ks =>
      rcases List.mem_cons.mp hp with rfl | hp
      · exact ⟨_, by simp [StreamDedupQueue.insertNew]; rfl, event, hlast, ⟨ks.2, hkey⟩, rfl, rfl⟩
      · exact hprev hp
  · intro x hx
    rcases List.mem_append.mp hx with hx | hx
    · obtain ⟨e, he, hcase⟩ := h.origin x hx
      refine ⟨e, hseen he, hcase.imp ?_ id⟩
      rintro ⟨k, hk, hke⟩
      exact ⟨k, List.mem_append_left _ hk, hke⟩
    · obtain rfl := List.mem_singleton.mp hx
      refine ⟨event, hlast, ?_⟩
      cases key with
      | none => exact .inr ⟨hkey, rfl⟩
      | some ks =>
        exact .inl ⟨ks.1, by simp [StreamDedupQueue.insertNew], ⟨ks.2, hkey⟩, rfl, rfl⟩

/-- Only `duplicates`, the counters and the input grow. -/
theorem QueueInv.suppress (h : QueueInv extractOne config seedKeys seen q) {event : Event}
    {summary : DedupSummary} (hsum : summary.insertedKeys = q.summary.insertedKeys)
    {d : DuplicateLog} (hd : d.reason = .keyInScopeRegistry → d.dedupKey ∈ seedKeys ∧
      d.event = event ∧ ∃ s, extractDedupKey extractOne event config = some (d.dedupKey, s)) :
    QueueInv extractOne config seedKeys (seen ++ [event])
      { q with summary, duplicates := q.duplicates ++ [d] } := by
  have hseen {e : Event} (he : e ∈ seen) : e ∈ seen ++ [event] := List.mem_append_left _ he
  refine ⟨?_, ?_, ?_, ?_⟩
  · intro d' hd' hr
    rcases List.mem_append.mp hd' with hd' | hd'
    · obtain ⟨hs, he, hk⟩ := h.seeded d' hd' hr
      exact ⟨hs, hseen he, hk⟩
    · obtain rfl := List.mem_singleton.mp hd'
      obtain ⟨hs, he, hk⟩ := hd hr
      exact ⟨hs, by simp [he], he ▸ hk⟩
  · intro k
    exact hsum ▸ h.inserted k
  · intro p hp
    obtain ⟨x, hx, e, he, hke⟩ := h.indexed p hp
    exact ⟨x, hx, e, hseen he, hke⟩
  · intro x hx
    obtain ⟨e, he, hcase⟩ := h.origin x hx
    refine ⟨e, hseen he, hcase.imp ?_ id⟩
    rintro ⟨k, hk, hke⟩
    exact ⟨k, hsum ▸ hk, hke⟩

/-- `keep_latest` swaps the entry of a key for a later event of the same key. -/
theorem QueueInv.replaceEntry (h : QueueInv extractOne config seedKeys seen q) {event : Event}
    {key source : String} (hkey : extractDedupKey extractOne event config = some (key, source))
    {idx : ℕ} (hidx : (key, idx) ∈ q.keyToIndex) {summary : DedupSummary}
    (hsum : summary.insertedKeys = q.summary.insertedKeys) :
    QueueInv extractOne config seedKeys (seen ++ [event])
      (({ q with summary } : StreamDedupQueue).replaceEntry idx event key source) := by
  obtain ⟨old, hold, e₀, -, -, holdKey, -⟩ := h.indexed _ hidx
  obtain ⟨hlt, holdEq⟩ := List.getElem?_eq_some_iff.mp hold
  have hget : q.entries[idx]? = some old := hold
  have hseen {e : Event} (he : e ∈ seen) : e ∈ seen ++ [event] := List.mem_append_left _ he
  have hnew : KeyedBy extractOne config key event ⟨old.queueId, key,
      attachDedupMetadata event (some key) old.queueId, source⟩ := ⟨⟨source, hkey⟩, rfl, rfl⟩
  simp only [StreamDedupQueue.replaceEntry, hget]
  refine ⟨?_, ?_, ?_, ?_⟩
  · intro d hd hr
    rcases List.mem_append.mp hd with hd | hd
    · obtain ⟨hs, he, hk⟩ := h.seeded d hd hr
      exact ⟨hs, hseen he, hk⟩
    · obtain rfl := List.mem_singleton.mp hd
      simp at hr
  · intro k
    exact hsum ▸ h.inserted k
  · intro p hp
    obtain ⟨x, hx, e, he, hke⟩ := h.indexed p hp
    by_cases hi : p.2 = idx
    · have hx : q.entries[p.2]? = some x := hx
      rw [hi, hget] at hx
      obtain rfl := Option.some.inj hx
      obtain rfl : key = p.1 := holdKey.symm.trans hke.2.1
      exact ⟨_, by rw [hi, List.getElem?_set_self hlt]; rfl, event, by simp, hnew⟩
    · exact ⟨x, by rwa [List.getElem?_set_ne (Ne.symm hi)], e, hseen he, hke⟩
  · intro x hx
    rcases List.mem_or_eq_of_mem_set hx with hx | rfl
    · obtain ⟨e, he, hcase⟩ := h.origin x hx
      refine ⟨e, hseen he, hcase.imp ?_ id⟩
      rintro ⟨k, hk, hke⟩
      exact ⟨k, hsum ▸ hk, hke⟩
    · exact ⟨event, by simp, .inl ⟨key, hsum ▸ (h.inserted key).mpr ⟨idx, hidx⟩, hnew⟩⟩

@[simp] theorem countDuplicate_insertedKeys (summary : DedupSummary) (source : String)
    (inSeed inRun : Bool) :
    (countDuplicate summary source inSeed inRun).insertedKeys = summary.insertedKeys := by
  have h : (incDuplicateCounter summary source).insertedKeys = summary.insertedKeys := by
    unfold incDuplicateCounter
    split_ifs <;> rfl
  exact h

theorem QueueInv.ingestOne (h : QueueInv extractOne config seedKeys seen q) (event : Event) :
    QueueInv extractOne config seedKeys (seen ++ [event])
      (q.ingestOne extractOne config seedKeys event) := by
  unfold StreamDedupQueue.ingestOne
  cases hkey : extractDedupKey extractOne event config with
  | none => exact h.insertNew hkey
  | some ks =>
    obtain ⟨key, source⟩ := ks
    cases hidx : q.keyToIndex.lookup key with
    | none =>
      by_cases hseed : key ∈ seedKeys
      · simp only [hseed, hidx, decide_true]
        exact h.suppress (countDuplicate_insertedKeys ..) fun _ => ⟨hseed, rfl, source, hkey⟩
      · simp only [hseed, hidx, decide_false]
        exact h.insertNew hkey
    | some idx =>
      simp only [hidx]
      split
      · exact h.replaceEntry hkey (mem_of_lookup hidx) (countDuplicate_insertedKeys ..)
      · exact h.suppress (countDuplicate_insertedKeys ..) (by simp)

/-- The invariant holds of the queue `ingest` ends with. -/
theorem ingest_inv (extractOne : Event → String → Option Json) (config : StreamDedupConfig)
    (seedKeys : List String) (events : List Event) :
    QueueInv extractOne config seedKeys events
      (StreamDedupQueue.ingest extractOne config seedKeys events) := by
  have hfold (done rest : List Event) (q : StreamDedupQueue)
      (h : QueueInv extractOne config seedKeys done q) :
      QueueInv extractOne config seedKeys (done ++ rest)
        (rest.foldl (StreamDedupQueue.ingestOne extractOne config seedKeys) q) := by
    induction rest generalizing done q with
    | nil => simpa using h
    | cons e rest ih => simpa using ih _ _ (h.ingestOne e)
  exact hfold [] events _ (queueInv_empty _ rfl)

end Invariant

end Dedup
