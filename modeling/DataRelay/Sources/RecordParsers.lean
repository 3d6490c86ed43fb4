import DataRelay.Sources.TransportMetadata

/-! The records of a fetched object or file. A record of a line format comes with the offset in
the file at which its line ends. -/
namespace Sources
open Delivery Runner

/-- What the parsers call of the Python runtime: `bytes.decode` by the name of an encoding,
`json.loads`, the rows of `csv.DictReader`, `repr` of a text, `int` of a value that is not a
number, and SHA-256. `none` is an exception. -/
structure FileRuntime extends TextRuntime where
  decode : String → List UInt8 → Option String
  loads : String → Option Json
  csvRows : (delimiter text : String) → Option (List Event) := fun _ _ => none
  reprStr : String → String := fun s => s
  intText : Json → Option ℤ := fun _ => none
  sha256 : List UInt8 → String := fun _ => ""

inductive PollError where
  /-- `SourceFetchError`. -/
  | sourceFetch (message : String)
  | unicodeDecode
  | csv
  | isoFormat (text : String)
  /-- `int()` of a value that is no integer. -/
  | notAnInteger
  deriving DecidableEq, Repr

/-- `int(value)`. -/
def FileRuntime.toInt (rt : FileRuntime) : Json → Except PollError ℤ
  | .int i => .ok i
  | .bool b => .ok (if b then 1 else 0)
  | v =>
    match rt.intText v with
    | some i => .ok i
    | none => .error .notAnInteger

section records

variable (rt : FileRuntime) (lenient : Bool)

/-- One line of an NDJSON text; `none` is a line the lenient reader passes over. -/
def ndjsonLine (subject : String) (lineNo : ℕ) (piece : String) :
    Except PollError (Option Event) :=
  match rt.loads piece with
  | some (.obj members) => .ok (some members)
  | some _ =>
    if lenient then .ok none
    else .error (.sourceFetch (subject ++ ": line " ++ toString lineNo ++ " must be a JSON object"))
  | none =>
    if lenient then .ok none
    else .error (.sourceFetch (subject ++ ": invalid JSON on line " ++ toString lineNo))

def s3LineRecords (subject : String) : ℕ → List String → Except PollError (List Event)
  | _, [] => .ok []
  | lineNo, line :: lines =>
    if PyText.strip line = "" then s3LineRecords subject (lineNo + 1) lines
    else
      (ndjsonLine rt lenient subject lineNo (PyText.strip line)).bind fun record =>
        (s3LineRecords subject (lineNo + 1) lines).map (record.toList ++ ·)

def arrayRecords (subject : String) : ℕ → List Json → Except PollError (List Event)
  | _, [] => .ok []
  | index, .obj members :: items => (arrayRecords subject (index + 1) items).map (members :: ·)
  | index, _ :: _ => .error (.sourceFetch
    (subject ++ ": JSON array item at index " ++ toString index ++ " must be an object"))

/-- `parse_s3_object_records`. -/
def parseS3ObjectRecords (body : List UInt8) (objectKey : String) :
    Except PollError (List Event) :=
  let subject := "S3 object " ++ rt.reprStr objectKey
  match rt.decode "utf-8-sig" body with
  | none => .error .unicodeDecode
  | some text =>
    if PyText.strip text = "" then .ok []
    else
      match rt.loads text with
      | some (.arr items) => arrayRecords subject 0 items
      | some (.obj members) => .ok [members]
      -- a JSON scalar, like a text that is not JSON, is read line by line
      | _ => s3LineRecords rt lenient subject 1 (PyText.lines text)

end records

/-! ### Records with offsets -/

inductive ParserType where
  | ndjson
  | jsonArray
  | jsonObject
  | csv
  | lineText
  | unsupported
  deriving DecidableEq, Repr

/-- `_normalize_parser_type`. -/
def normalizeParserType (raw : String) : ParserType :=
  match (PyText.upper (PyText.strip (if raw = "" then "ndjson" else raw))).map
    fun c => if c = '-' then '_' else c with
  | "NDJSON" => .ndjson
  | "JSON_ARRAY" => .jsonArray
  | "JSON_OBJECT" => .jsonObject
  | "CSV" => .csv
  | "LINE_TEXT" => .lineText
  | "LINE_DELIMITED_TEXT" => .lineText
  | _ => .unsupported

/-- `_align_line_start`: where the first line begins that starts at the offset or after. -/
def alignLineStart (body : List UInt8) (offset : ℕ) : ℕ :=
  if offset = 0 then 0
  else if body.length ≤ offset then body.length
  else if body[offset - 1]? = some 10 then offset
  else
    let tail := (body.drop offset).dropWhile (· ≠ 10)
    if tail = [] then body.length else body.length - tail.length + 1

/-- The lines of the bytes from `offset` on with the offset each ends at. Line breaks where a line
would start are passed over; `line` is the part of the current line already read. -/
def byteLines (line : List UInt8) (offset : ℕ) : List UInt8 → List (List UInt8 × ℕ)
  | [] => if line = [] then [] else [(line, offset)]
  | b :: bs =>
    if line = [] then
      if b = 10 ∨ b = 13 then byteLines [] (offset + 1) bs else byteLines [b] (offset + 1) bs
    else if b = 10 then (line, offset + 1) :: byteLines [] (offset + 1) bs
    else byteLines (line ++ [b]) (offset + 1) bs

def linesFrom (body : List UInt8) (start : ℕ) : List (List UInt8 × ℕ) :=
  byteLines [] (alignLineStart body start) (body.drop (alignLineStart body start))

structure ParserConfig where
  parserType : String := "NDJSON"
  lenientNdjson : Bool := true
  encoding : String := "utf-8"
  csvDelimiter : String := ","
  lineEventField : String := "line"
  deriving DecidableEq

section offsets

variable (rt : FileRuntime) (cfg : ParserConfig)

def ndjsonLineEvents (subject : String) :
    ℕ → List (List UInt8 × ℕ) → Except PollError (List (Event × ℕ))
  | _, [] => .ok []
  | lineNo, (chunk, stop) :: chunks =>
    match rt.decode cfg.encoding chunk with
    | none => .error .unicodeDecode
    | some text =>
      if PyText.strip text = "" then ndjsonLineEvents subject (lineNo + 1) chunks
      else
        (ndjsonLine rt cfg.lenientNdjson subject lineNo (PyText.strip text)).bind fun record =>
          (ndjsonLineEvents subject (lineNo + 1) chunks).map
            (record.toList.map (fun e => (e, stop)) ++ ·)

def lineTextEvents : List (List UInt8 × ℕ) → Except PollError (List (Event × ℕ))
  | [] => .ok []
  | (chunk, stop) :: chunks =>
    match rt.decode cfg.encoding chunk with
    | none => .error (.sourceFetch "line text decode failed")
    | some text =>
      (lineTextEvents chunks).map
        ((if PyText.strip text = "" then []
          else [([(cfg.lineEventField, Json.str (PyText.strip text))], stop)]) ++ ·)

/-- `_parse_records_with_offsets`. -/
def parseRecordsWithOffsets (body : List UInt8) (remotePath : String) (start : ℕ) :
    Except PollError (List (Event × ℕ)) :=
  let whole (records : List Event) : List (Event × ℕ) := records.map fun r => (r, body.length)
  let decoded : Except PollError String :=
    match rt.decode cfg.encoding body with
    | some text => .ok text
    | none => .error (.sourceFetch ("decode failed for remote file " ++ rt.reprStr remotePath ++
      " (encoding=" ++ rt.reprStr cfg.encoding ++ ")"))
  match normalizeParserType cfg.parserType with
  | .ndjson => ndjsonLineEvents rt cfg ("remote file " ++ rt.reprStr remotePath) 1
    (linesFrom body start)
  | .lineText => lineTextEvents rt cfg (linesFrom body start)
  | .jsonArray | .jsonObject => decoded.bind fun _ =>
    (parseS3ObjectRecords rt cfg.lenientNdjson body remotePath).map whole
  | .csv => decoded.bind fun text =>
    if cfg.csvDelimiter.length ≠ 1 then
      .error (.sourceFetch "csv_delimiter must be a single character")
    else
      match rt.csvRows cfg.csvDelimiter text with
      | some rows => .ok (whole rows)
      | none => .error .csv
  | .unsupported => decoded.bind fun _ => .error (.sourceFetch
    ("unsupported parser_type for REMOTE_FILE_POLLING: " ++ rt.reprStr cfg.parserType))

end offsets

end Sources
