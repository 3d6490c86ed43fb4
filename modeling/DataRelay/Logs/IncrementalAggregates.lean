import DataRelay.Lib.Json
import DataRelay.Lib.PyText
import DataRelay.Lib.Steps
import Mathlib.Data.List.Sort

/-! The read model of the delivery logs that a process keeps beside the table: writers add their
rows to it before they commit, and every query first compares it with the table by a count and a
largest id. A refresh takes its lock three times and reads the table between; the writers go on
meanwhile. -/
namespace DeliveryLogs

/-- `DeliveryLog`, with the columns the read model has. -/
structure DeliveryLog where
  id : ℕ := 0
  createdAt : ℤ
  connectorId : Option ℤ := none
  streamId : Option ℤ := none
  routeId : Option ℤ := none
  destinationId : Option ℤ := none
  stage : String
  level : String := "INFO"
  payloadSample : Json := .obj []
  retryCount : ℤ := 0
  latencyMs : Option ℤ := none
  errorCode : Option String := none
  deriving DecidableEq

/-- `DeliveryLogAggregateFact`. -/
structure Fact where
  id : ℕ
  createdAt : ℤ
  connectorId : Option ℤ
  streamId : Option ℤ
  routeId : Option ℤ
  destinationId : Option ℤ
  stage : String
  level : String
  eventCount : ℤ
  inputEvents : ℤ
  protectedEventCount : ℤ
  retryCount : ℤ
  latencyMs : Option ℤ
  errorCode : Option String
  deriving DecidableEq

section facts

variable (parseInt : Json → Option ℤ)

/-- `_payload_int`; `parseInt` is `int(raw)` of a text or a float. -/
def payloadInt (payload : Json) (key : String) (default : ℤ) : ℤ :=
  match payload with
  | .obj members =>
    match Dict.get? key members with
    | none => default
    | some .null => default
    | some (.bool _) => default
    | some (.int i) => i
    | some raw => (parseInt raw).getD default
  | _ => default

/-- `_fact_from_row`. -/
def factFromRow (row : DeliveryLog) : Fact where
  id := row.id
  createdAt := row.createdAt
  connectorId := row.connectorId
  streamId := row.streamId
  routeId := row.routeId
  destinationId := row.destinationId
  stage := row.stage
  level := row.level
  eventCount := max 1 (payloadInt parseInt row.payloadSample "event_count" 1)
  inputEvents := max 0 (payloadInt parseInt row.payloadSample "input_events" 0)
  protectedEventCount := max 1 (payloadInt parseInt row.payloadSample "protected_event_count" 1)
  retryCount := row.retryCount
  latencyMs := row.latencyMs
  errorCode := row.errorCode

end facts

/-! ### The cache -/

/-- `DeliveryLogIncrementalAggregateCache`. -/
structure Cache where
  watermarkId : ℕ := 0
  tableCount : ℕ := 0
  maxCreatedAt : Option ℤ := none
  factsById : List (ℕ × Fact) := []
  deriving DecidableEq

/-- `ingest_delivery_log_row`. -/
def ingestDeliveryLogRow (parseInt : Json → Option ℤ) (row : DeliveryLog) (cache : Cache) : Cache :=
  let fact := factFromRow parseInt row
  if Dict.has fact.id cache.factsById then cache
  else
    { watermarkId := if cache.watermarkId < fact.id then fact.id else cache.watermarkId
      tableCount := cache.tableCount + 1
      maxCreatedAt :=
        if cache.maxCreatedAt.all (· < fact.createdAt) then some fact.createdAt
        else cache.maxCreatedAt
      factsById := Dict.set fact.id fact cache.factsById }

def maxId (table : List DeliveryLog) : ℕ := (table.map (·.id)).foldr max 0

def maxCreatedAt (table : List DeliveryLog) : Option ℤ := (table.map (·.createdAt)).max?

def createdAtOf (id : ℕ) (table : List DeliveryLog) : Option ℤ :=
  (table.find? (·.id = id)).map (·.createdAt)

/-- The tests of `refresh` that give the facts up; `seen` is the table its first query read. -/
def distrusts (seen : List DeliveryLog) (markerFact : Option Fact) (markerCreatedAt : Option ℤ)
    (cache : Cache) : Bool :=
  maxId seen < cache.watermarkId || seen.length < cache.factsById.length ||
    markerFact.any (fun fact => markerCreatedAt ≠ some fact.createdAt) ||
    (maxId seen ≤ cache.watermarkId && seen.length ≠ cache.tableCount) ||
    (maxId seen ≤ cache.watermarkId && maxCreatedAt seen ≠ cache.maxCreatedAt)

/-- The rows with ids above `start` and up to `stop`, `order_by(id)`. -/
def rowsAbove (start stop : ℕ) (table : List DeliveryLog) : List DeliveryLog :=
  (table.filter fun row => start < row.id && row.id ≤ stop).insertionSort fun a b => a.id ≤ b.id

/-- The last locked section of `refresh`. -/
def merge (parseInt : Json → Option ℤ) (seen rows : List DeliveryLog) (startId : ℕ)
    (cache : Cache) : Cache :=
  if startId ≠ cache.watermarkId ∧ cache.watermarkId ≤ maxId seen then cache
  else
    { watermarkId := maxId seen
      tableCount := seen.length
      maxCreatedAt := maxCreatedAt seen
      factsById :=
        rows.foldl (fun facts row => Dict.set row.id (factFromRow parseInt row) facts)
          cache.factsById }

/-- `refresh` between two of its queries and locked sections. Of the table its first query read,
`seen`, the code keeps the number of rows, the largest id and the newest time. -/
inductive Refresh where
  | counted (seen : List DeliveryLog)
  | compared (seen : List DeliveryLog) (markerId : ℕ) (markerFact : Option Fact)
  | marked (seen : List DeliveryLog) (markerFact : Option Fact) (markerCreatedAt : Option ℤ)
  | judged (seen : List DeliveryLog) (startId : ℕ)
  | loaded (seen : List DeliveryLog) (startId : ℕ) (rows : List DeliveryLog)
  deriving DecidableEq

/-- The next query or locked section of `refresh`; `none` when it returns. -/
def Refresh.proceed (parseInt : Json → Option ℤ) (table : List DeliveryLog) (cache : Cache) :
    Refresh → Option Refresh × Cache
  | .counted seen =>
    if maxId seen ≤ cache.watermarkId ∧ seen.length = cache.tableCount then (none, cache)
    else
      (some (.compared seen cache.watermarkId (Dict.get? cache.watermarkId cache.factsById)), cache)
  | .compared seen markerId markerFact =>
    let markerCreatedAt :=
      if 0 < markerId ∧ markerFact.isSome ∧ markerId ≤ maxId seen then createdAtOf markerId table
      else none
    (some (.marked seen markerFact markerCreatedAt), cache)
  | .marked seen markerFact markerCreatedAt =>
    let kept := if distrusts seen markerFact markerCreatedAt cache then {} else cache
    if maxId seen ≤ kept.watermarkId then (none, kept)
    else (some (.judged seen kept.watermarkId), kept)
  | .judged seen startId => (some (.loaded seen startId (rowsAbove startId (maxId seen) table)), cache)
  | .loaded seen startId rows => (none, merge parseInt seen rows startId cache)

/-- The window and the filter of a query. -/
structure Query where
  startAt : ℤ
  endAt : ℤ
  streamId : Option ℤ := none
  routeId : Option ℤ := none
  destinationId : Option ℤ := none
  inclusiveEnd : Bool := false
  excludeDebug : Bool := true
  deriving DecidableEq

def Query.selects (q : Query) (fact : Fact) : Bool :=
  q.startAt ≤ fact.createdAt &&
  (if q.inclusiveEnd then fact.createdAt ≤ q.endAt else fact.createdAt < q.endAt) &&
  !(q.excludeDebug && PyText.upper fact.level = "DEBUG") &&
  q.streamId.all (fun id => fact.streamId = some id) &&
  q.routeId.all (fun id => fact.routeId = some id) &&
  q.destinationId.all fun id => fact.destinationId = some id

/-- What `facts` returns after its refresh. -/
def facts (q : Query) (cache : Cache) : List Fact := (cache.factsById.map Prod.snd).filter q.selects

/-! ### Histories -/

/-- A transaction that has flushed its rows, and how many of them it has ingested. -/
structure Writer where
  rows : List DeliveryLog
  ingested : ℕ := 0
  settled : Bool := false
  deriving DecidableEq

/-- `stood` are the tables that have stood since the first query of the last refresh; `calls` are
the calls whose refresh is over and whose list is not taken yet, each with the tables that stood
during its refresh. -/
structure World where
  table : List DeliveryLog := []
  nextId : ℕ := 1
  writers : List Writer := []
  cache : Cache := {}
  refresh : Option Refresh := none
  stood : List (List DeliveryLog) := []
  calls : List (List (List DeliveryLog)) := []
  deriving DecidableEq

inductive Action where
  | flush (rows : List DeliveryLog)
  | ingest (writer : ℕ)
  | commit (writer : ℕ)
  | rollback (writer : ℕ)
  | delete (ids : List ℕ)
  | query
  | proceed
  | facts (call : ℕ) (query : Query)
  deriving DecidableEq

/-- The ids the sequence gives. -/
def assignIds (next : ℕ) : List DeliveryLog → List DeliveryLog
  | [] => []
  | row :: rows => { row with id := next } :: assignIds (next + 1) rows

/-- The table after a commit or a deletion. -/
def World.replace (w : World) (table : List DeliveryLog) : World :=
  { w with table := table, stood := w.stood ++ [table] }

/-- A writer ingests its rows one after the other, and commits or rolls back after the last. One
refresh is under way at a time. -/
def step (parseInt : Json → Option ℤ) (w : World) : Action → World
  | .flush rows =>
    { w with
      nextId := w.nextId + rows.length
      writers := w.writers ++ [{ rows := assignIds w.nextId rows }] }
  | .ingest i =>
    match w.writers[i]? with
    | some writer =>
      match writer.rows[writer.ingested]? with
      | some row =>
        if writer.settled then w
        else
          { w with
            writers := w.writers.set i { writer with ingested := writer.ingested + 1 }
            cache := ingestDeliveryLogRow parseInt row w.cache }
      | none => w
    | none => w
  | .commit i =>
    match w.writers[i]? with
    | some writer =>
      if writer.settled ∨ writer.ingested < writer.rows.length then w
      else
        { w.replace (w.table ++ writer.rows) with
          writers := w.writers.set i { writer with settled := true } }
    | none => w
  | .rollback i =>
    match w.writers[i]? with
    | some writer =>
      if writer.settled ∨ writer.ingested < writer.rows.length then w
      else { w with writers := w.writers.set i { writer with settled := true } }
    | none => w
  | .delete ids => w.replace (w.table.filter fun row => row.id ∉ ids)
  | .query =>
    match w.refresh with
    | some _ => w
    | none => { w with refresh := some (.counted w.table), stood := [w.table] }
  | .proceed =>
    match w.refresh with
    | some refresh =>
      match refresh.proceed parseInt w.table w.cache with
      | (some next, cache) => { w with refresh := some next, cache := cache }
      | (none, cache) =>
        { w with refresh := none, cache := cache, calls := w.calls ++ [w.stood] }
    | none => w
  | .facts i _ => { w with calls := w.calls.eraseIdx i }

/-- What the query returns is the filter of a table that stood during the refresh. -/
def Coherent (parseInt : Json → Option ℤ) (stood : List (List DeliveryLog)) (cache : Cache)
    (q : Query) : Prop :=
  ∃ table ∈ stood, (facts q cache).Perm ((table.map (factFromRow parseInt)).filter q.selects)

instance (parseInt : Json → Option ℤ) (stood : List (List DeliveryLog)) (cache : Cache)
    (q : Query) : Decidable (Coherent parseInt stood cache q) :=
  inferInstanceAs (Decidable (∃ table ∈ stood, List.Perm _ _))

/-- What is claimed of an action. -/
def Answers (parseInt : Json → Option ℤ) (w : World) : Action → Prop
  | .facts i q => ∀ stood ∈ w.calls[i]?, Coherent parseInt stood w.cache q
  | _ => True

end DeliveryLogs
