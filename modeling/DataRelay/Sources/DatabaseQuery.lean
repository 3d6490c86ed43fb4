import DataRelay.Lib.Keyset
import DataRelay.Sources.CheckpointAgreement
import DataRelay.Sources.RowCodec

/-! The database source. The user's query is wrapped with a filter past the checkpoint, an order
and a limit; the outer query keeps its meaning as an SQL statement over the rows of the inner
one. -/
namespace Sources
open Delivery Runner

/-- A condition of the outer query on a column and a bound value. -/
inductive SqlCondition (β : Type*) where
  | gt (column : String) (bind : β)
  | ge (column : String) (bind : β)
  | le (column : String) (bind : β)
  | eq (column : String) (bind : β)
  | and (a b : SqlCondition β)
  | or (a b : SqlCondition β)

/-- `SELECT * FROM (inner) WHERE a AND b ... ORDER BY c, d ... LIMIT n`. -/
structure WrappedSelect (β : Type*) where
  whereParts : List (SqlCondition β)
  orderBy : List String
  limit : ℕ

/-- The message of a `SourceFetchError`. -/
abbrev FetchError := String

def isIdentifierStart (c : Char) : Bool :=
  (65 ≤ c.toNat && c.toNat ≤ 90) || (97 ≤ c.toNat && c.toNat ≤ 122) || c = '_'

def isIdentifierChar (c : Char) : Bool := isIdentifierStart c || (48 ≤ c.toNat && c.toNat ≤ 57)

def validSqlIdentifier (name : String) : Bool :=
  match name.toList with
  | [] => false
  | c :: cs => isIdentifierStart c && cs.all isIdentifierChar

def validateSqlIdentifier (name field : String) : Except FetchError String :=
  if validSqlIdentifier (PyText.strip name) then .ok (PyText.strip name)
  else .error ("Invalid " ++ field ++
    ": use letters, digits, underscore; must start with letter or underscore.")

namespace DatabaseCursor

variable (c : DatabaseCursor)

/-- The filter of a run that is not a replay. -/
def checkpointFilter (checkpoint : Option Json.Members) :
    Except FetchError (List (SqlCondition Json)) :=
  match c.mode with
  | .none => .ok []
  | .singleColumn =>
    if c.checkpointColumn = "" then
      .error "checkpoint_column is required when checkpoint_mode=SINGLE_COLUMN"
    else
      (validateSqlIdentifier c.checkpointColumn "checkpoint_column").map fun col =>
        match extractWatermarkOnly checkpoint col with
        | none => []
        | some last => [.gt col last]
  | .compositeOrder =>
    if c.checkpointColumn = "" ∨ c.checkpointOrderColumn = "" then
      .error ("checkpoint_column and checkpoint_order_column are required when " ++
        "checkpoint_mode=COMPOSITE_ORDER")
    else
      (validateSqlIdentifier c.checkpointColumn "checkpoint_column").bind fun c1 =>
        (validateSqlIdentifier c.checkpointOrderColumn "checkpoint_order_column").map fun c2 =>
          match extractComposite checkpoint c1 (some c2) with
          | none => []
          | some (lw, lo) => [.or (.gt c1 lw) (.and (.eq c1 lw) (.gt c2 lo))]

/-- The filter of a replay between two bounds. -/
def replayFilter (low high : Json) : Except FetchError (List (SqlCondition Json)) :=
  if c.mode = .none then
    .error "DATABASE_QUERY replay requires checkpoint_mode SINGLE_COLUMN or COMPOSITE_ORDER"
  else if c.checkpointColumn = "" then
    .error "checkpoint_column is required for DATABASE_QUERY replay window"
  else
    (validateSqlIdentifier c.checkpointColumn "checkpoint_column").map fun col =>
      [.ge col low, .le col high]

def orderParts : Except FetchError (List String) :=
  if c.mode = .none ∨ c.checkpointColumn = "" then .ok []
  else
    (validateSqlIdentifier c.checkpointColumn "checkpoint_column").bind fun c1 =>
      if c.mode = .compositeOrder ∧ c.checkpointOrderColumn ≠ "" then
        (validateSqlIdentifier c.checkpointOrderColumn "checkpoint_order_column").map fun c2 =>
          [c1, c2]
      else .ok [c1]

/-- `build_wrapped_select`. -/
def buildWrappedSelect (maxRows : ℤ) (checkpoint : Option Json.Members)
    (replay : Option (Json × Json)) : Except FetchError (WrappedSelect Json) :=
  (match replay with
    | some (low, high) => c.replayFilter low high
    | none => c.checkpointFilter checkpoint).bind fun whereParts =>
      c.orderParts.map fun orderBy => ⟨whereParts, orderBy, (max 1 maxRows).toNat⟩

end DatabaseCursor

/-! ### The meaning of the query -/

/-- A database whose columns take values in a totally ordered type, and its driver: `fetched` is
what the driver hands over for a value of a column, `decode` what the database reads from a value
bound against the column, `none` when it refuses it. -/
structure Database (V : Type*) where
  fetched : (column : String) → V → DriverValue
  decode : (column : String) → Json → Option V

/-- A row by its columns; `none` is NULL. -/
abbrev SqlRow (V : Type*) := List (String × Option V)

def SqlRow.cell {V : Type*} (column : String) (row : SqlRow V) : Option V :=
  (Dict.get? column row).join

namespace Database

variable {V : Type*} (db : Database V)

/-- What a fetched value becomes in an event. -/
def encode (column : String) (v : V) : Json := jsonSafeValue (db.fetched column v)

/-- `json_safe_row`. -/
def rowEvent (row : SqlRow V) : Event := row.map fun m => (m.1, m.2.elim .null (db.encode m.1))

/-- Bound against its column, what the value becomes in an event is read as the value. -/
def ReadsBack (column : String) (v : V) : Prop :=
  db.encode column v ≠ .null ∧ db.decode column (db.encode column v) = some v

def bindCondition : SqlCondition Json → Option (SqlCondition V)
  | .gt col v => (db.decode col v).map (.gt col)
  | .ge col v => (db.decode col v).map (.ge col)
  | .le col v => (db.decode col v).map (.le col)
  | .eq col v => (db.decode col v).map (.eq col)
  | .and a b => (bindCondition a).bind fun a => (bindCondition b).map (.and a)
  | .or a b => (bindCondition a).bind fun a => (bindCondition b).map (.or a)

/-- The query with its binds read; `none` when the database refuses one. -/
def bind (q : WrappedSelect Json) : Option (WrappedSelect V) :=
  (q.whereParts.mapM db.bindCondition).map fun whereParts => ⟨whereParts, q.orderBy, q.limit⟩

end Database

section semantics

variable {V : Type*} [LinearOrder V]

/-- A comparison with NULL is not true. -/
def SqlCondition.holds (row : SqlRow V) : SqlCondition V → Bool
  | .gt col v => (row.cell col).any fun x => decide (v < x)
  | .ge col v => (row.cell col).any fun x => decide (v ≤ x)
  | .le col v => (row.cell col).any fun x => decide (x ≤ v)
  | .eq col v => (row.cell col).any fun x => decide (x = v)
  | .and a b => a.holds row && b.holds row
  | .or a b => a.holds row || b.holds row

/-- Ascending order by the columns in turn, NULL last. -/
def RowLe : List String → SqlRow V → SqlRow V → Prop
  | [], _, _ => True
  | col :: cols, a, b =>
    let rank (row : SqlRow V) : WithTop V := row.cell col
    rank a < rank b ∨ rank a = rank b ∧ RowLe cols a b

/-- The pages a query may return: SQL leaves the order of ties open. -/
def WrappedSelect.Returns (q : WrappedSelect V) (table page : List (SqlRow V)) : Prop :=
  ∃ rows : List (SqlRow V),
    rows.Perm (table.filter fun row => q.whereParts.all (·.holds row)) ∧
      rows.Pairwise (RowLe q.orderBy) ∧ page = rows.take q.limit

end semantics

/-! ### Polling -/

/-- A stream on a database: how it is read, and what its route makes of an event. -/
structure Poller (V : Type*) where
  db : Database V
  cursor : DatabaseCursor
  maxRows : ℤ := 100
  transform : Event → Event := id
  cursorValue : Event → Option Json := fun _ => none

namespace Poller

variable {V : Type*} [LinearOrder V] (p : Poller V)

/-- `fetch_database_rows` returns the page. -/
def Fetches (table : List (SqlRow V)) (checkpoint : Option Json.Members)
    (page : List (SqlRow V)) : Prop :=
  ∃ q bound, p.cursor.buildWrappedSelect p.maxRows checkpoint none = .ok q ∧
    p.db.bind q = some bound ∧ bound.Returns table page

/-- The events of a page, as the adapter emits them. -/
def events (page : List (SqlRow V)) : List Event :=
  page.map fun row => p.cursor.attach (p.db.rowEvent row)

/-- The checkpoint after the page was delivered; an empty page leaves it. -/
def nextCheckpoint (checkpoint : Option Json.Members) (page : List (SqlRow V)) :
    Option Json.Members :=
  if page.isEmpty then checkpoint
  else storedCheckpoint p.cursorValue p.transform (p.events page)

end Poller

end Sources
