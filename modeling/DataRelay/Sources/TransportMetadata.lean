import DataRelay.Lib.UtcTime
import DataRelay.Runner.StreamRun

/-! Where an event came from. A source adapter writes it into the event, the route transform
carries it over, the checkpoint is derived from the last event, and the adapter reads the
checkpoint back on the next run. -/
namespace Sources
open Delivery Runner

/-- The parts of the Python runtime the adapters call: `str` of a list or dictionary, and what
`fromisoformat` makes of a text that is not the UTC text of a time. -/
structure TextRuntime where
  reprText : Json → String := fun _ => ""
  otherIso : String → Option UtcTime := fun _ => none

/-- `str(value)`. -/
def TextRuntime.str (rt : TextRuntime) (v : Json) : String :=
  if v = .null then "None" else (Dedup.scalarText v).getD (rt.reprText v)

/-- `ValueError` of `datetime.fromisoformat`. -/
structure IsoFormatError where
  text : String
  deriving DecidableEq, Repr

def TextRuntime.fromIsoFormat (rt : TextRuntime) (s : String) : Except IsoFormatError UtcTime :=
  match (UtcTime.ofIsoChars s.toList).orElse fun _ => rt.otherIso s with
  | some t => .ok t
  | none => .error ⟨s⟩

/-- `_parse_iso_dt`. -/
def TextRuntime.parseIsoDt (rt : TextRuntime) (value : Option String) :
    Except IsoFormatError (Option UtcTime) :=
  match value with
  | none => .ok none
  | some text =>
    if PyText.strip text = "" then .ok none
    else (rt.fromIsoFormat (PyText.strip text)).map some

/-! ### What the adapters attach -/

structure S3ObjectMeta where
  bucket : String
  key : String
  etag : String
  lastModified : UtcTime
  size : ℤ
  deriving DecidableEq

/-- `{**rec, **base_meta}`. -/
def S3ObjectMeta.attach (m : S3ObjectMeta) (record : Event) : Event :=
  record |> Dict.set "s3_bucket" (.str m.bucket) |> Dict.set "s3_key" (.str m.key)
    |> Dict.set "s3_etag" (.str m.etag)
    |> Dict.set "s3_last_modified" (.str m.lastModified.isoText)
    |> Dict.set "s3_size" (.int m.size)

/-- `offset` is where the record ends in the file and `prefixHash` the hash up to there;
`fileHash` is given when the stream includes file metadata. -/
structure RemoteFileMeta where
  path : String
  mtime : UtcTime
  size : ℤ
  protocol : String
  host : String
  fileHash : Option String := none
  offset : ℤ
  prefixHash : String
  deriving DecidableEq

def RemoteFileMeta.attach (m : RemoteFileMeta) (record : Event) : Event :=
  let based := record |> Dict.set "remote_path" (.str m.path)
    |> Dict.set "remote_mtime" (.str m.mtime.isoText) |> Dict.set "remote_size" (.int m.size)
    |> Dict.set "gdc_remote_path" (.str m.path)
    |> Dict.set "gdc_remote_mtime" (.str m.mtime.isoText)
    |> Dict.set "gdc_remote_size" (.int m.size)
    |> Dict.set "gdc_remote_protocol" (.str m.protocol) |> Dict.set "gdc_remote_host" (.str m.host)
  (match m.fileHash with
    | some hash => Dict.set "gdc_remote_hash" (.str hash) based
    | none => based)
    |> Dict.set "gdc_remote_offset" (.int m.offset)
    |> Dict.set "gdc_remote_hash" (.str m.prefixHash)

inductive CheckpointMode where
  | none
  | singleColumn
  | compositeOrder
  deriving DecidableEq, Repr

structure DatabaseCursor where
  mode : CheckpointMode
  checkpointColumn : String
  checkpointOrderColumn : String := ""
  deriving DecidableEq, Repr

def DatabaseCursor.attach (c : DatabaseCursor) (row : Event) : Event :=
  let event :=
    match Dict.get? c.checkpointColumn row with
    | some v =>
      if c.mode ≠ .none ∧ c.checkpointColumn ≠ "" then Dict.set "gdc_db_watermark" v row else row
    | none => row
  match Dict.get? c.checkpointOrderColumn row with
  | some v =>
    if c.mode = .compositeOrder ∧ c.checkpointOrderColumn ≠ "" then
      Dict.set "gdc_db_order_value" v event
    else event
  | none => event

/-! ### What the route transform carries over -/

def transportMetaKeys : List String :=
  ["s3_bucket", "s3_key", "s3_last_modified", "s3_etag", "s3_size", "gdc_db_watermark",
    "gdc_db_order_value", "remote_path", "remote_mtime", "remote_size", "gdc_remote_path",
    "gdc_remote_mtime", "gdc_remote_size", "gdc_remote_offset", "gdc_remote_hash",
    "gdc_remote_protocol", "gdc_remote_host"]

/-- Copies the members of `raw` under `keys` that the event does not have. -/
def carryOver (keys : List String) (raw event : Event) : Event :=
  keys.foldl (fun e k =>
    match Dict.get? k raw with
    | some v => if Dict.has k e then e else Dict.set k v e
    | none => e) event

/-- `_copy_transport_metadata` on one event, with `propagate_dedup_metadata`. -/
def copyEventMetadata (raw enriched : Event) : Event :=
  carryOver (transportMetaKeys ++ [Dedup.gdcDedupKeyMeta, Dedup.gdcDedupQueueIdMeta]) raw enriched

def copyTransportMetadata (raws transformed : List Event) : List Event :=
  if raws.length ≠ transformed.length then transformed
  else raws.zipWith copyEventMetadata transformed

/-- What is carried over stands in only for what is missing. -/
theorem get?_carryOver (keys : List String) (raw event : Event) (k : String) :
    Dict.get? k (carryOver keys raw event) =
      (Dict.get? k event).or (if k ∈ keys then Dict.get? k raw else none) := by
  induction keys generalizing event with
  | nil => simp [carryOver]
  | cons l keys ih =>
    rw [carryOver, List.foldl_cons, ← carryOver, ih]
    by_cases hk : k = l
    · subst hk
      cases hraw : Dict.get? k raw with
      | none => simp
      | some v => cases hev : Dict.get? k event <;> simp [Dict.has, hev]
    · have hlk : l ≠ k := fun h => hk h.symm
      cases hraw : Dict.get? l raw with
      | none => simp [hk]
      | some v => split_ifs <;> simp_all

/-! ### What the adapters read back -/

/-- `_watermark_tuple` of the S3 adapter. -/
def s3Watermark (rt : TextRuntime) (checkpoint : Option Json.Members) :
    Except IsoFormatError (Option UtcTime × Option String) :=
  let text (v : Json) : Option String := if v = .null then none else some (rt.str v)
  match checkpoint with
  | none => .ok (none, none)
  | some cp =>
    let key := getOrNull "last_processed_key" cp
    let lastModified := getOrNull "last_processed_last_modified" cp
    if key ≠ .null ∨ lastModified ≠ .null then
      (rt.parseIsoDt (text lastModified)).map (·, text key)
    else
      match getOrNull "last_success_event" cp with
      | .obj last =>
        (rt.parseIsoDt (text (getOrNull "s3_last_modified" last))).map
          (·, text (getOrNull "s3_key" last))
      | _ => .ok (none, none)

/-- `_checkpoint_resume_fields`; a missing field is `None`. -/
structure ResumeFields where
  file : String := ""
  mtime : Json := .null
  size : Json := .null
  offset : Json := .null
  hash : Json := .null
  deriving DecidableEq

def orElse (a b : Json) : Json := if truthy a then a else b

def checkpointResumeFields (rt : TextRuntime) (checkpoint : Option Json.Members) : ResumeFields :=
  match checkpoint with
  | none => {}
  | some cp =>
    let get (k : String) : Json := getOrNull k cp
    if truthy (get "last_processed_file") ∨ truthy (get "last_processed_mtime") then
      { file := rt.str (orElse (orElse (get "last_processed_file") (get "last_processed_key")) (.str ""))
        mtime := orElse (get "last_processed_mtime") (get "last_processed_last_modified")
        size := get "last_processed_size"
        offset := get "last_processed_offset"
        hash := get "last_processed_hash" }
    else if get "last_processed_key" ≠ .null ∨ get "last_processed_last_modified" ≠ .null then
      { file := rt.str (orElse (get "last_processed_key") (.str ""))
        mtime := get "last_processed_last_modified"
        size := get "last_processed_size"
        offset := get "last_processed_offset"
        hash := get "last_processed_hash" }
    else
      match get "last_success_event" with
      | .obj last =>
        { file := rt.str (orElse (orElse (getOrNull "gdc_remote_path" last)
            (getOrNull "remote_path" last)) (.str ""))
          mtime := orElse (getOrNull "gdc_remote_mtime" last) (getOrNull "remote_mtime" last)
          size :=
            if getOrNull "gdc_remote_size" last ≠ .null then getOrNull "gdc_remote_size" last
            else getOrNull "remote_size" last
          offset := getOrNull "gdc_remote_offset" last
          hash := getOrNull "gdc_remote_hash" last }
      | _ => {}

/-- `_watermark_tuple` of the remote file adapter. -/
def remoteWatermark (rt : TextRuntime) (checkpoint : Option Json.Members) :
    Except IsoFormatError (Option UtcTime × Option String) :=
  let fields := checkpointResumeFields rt checkpoint
  let path := if fields.file = "" then none else some fields.file
  match fields.mtime with
  | .str text => (rt.parseIsoDt (some text)).map (·, path)
  | _ => .ok (none, path)

def defaultOrderSeed : Json → Json
  | .int _ | .float _ | .bool _ => .int 0
  | _ => .str ""

/-- `_extract_composite`. -/
def extractComposite (checkpoint : Option Json.Members) (checkpointColumn : String)
    (orderColumn : Option String) : Option (Json × Json) :=
  match checkpoint with
  | none => none
  | some cp =>
    let lastEvent : Event :=
      match getOrNull "last_success_event" cp with
      | .obj last => last
      | _ => []
    let watermark := (Dict.get? checkpointColumn lastEvent).getD
      (getOrNull "last_processed_db_watermark" cp)
    if watermark = .null then none
    else
      match orderColumn with
      | none => some (watermark, .null)
      | some column =>
        let order := (Dict.get? column lastEvent).getD (getOrNull "last_processed_db_order" cp)
        some (watermark, if order = .null then defaultOrderSeed watermark else order)

/-- `_extract_watermark_only`. -/
def extractWatermarkOnly (checkpoint : Option Json.Members) (checkpointColumn : String) :
    Option Json :=
  (extractComposite checkpoint checkpointColumn none).map Prod.fst

end Sources
