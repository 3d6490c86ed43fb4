import DataRelay.Lib.LimitedScan
import DataRelay.Sources.CheckpointAgreement
import DataRelay.Sources.RecordParsers
import Mathlib.Data.List.Sort
import Mathlib.Data.Prod.Lex
import Mathlib.Data.String.Basic

/-! Polling the files of a remote directory. A file the last run stopped inside is read on from
the offset of the checkpoint; files past the watermark are read from their start. -/
namespace Sources
open Delivery Runner LimitedScan

/-- What reading a file comes to: its bytes with the size after the read, an `OSError`, or no
transport to read over. -/
inductive ReadOutcome where
  | bytes (body : List UInt8) (statSize : ℤ)
  | osError
  | noTransport
  deriving DecidableEq

/-- A file of the listing. -/
structure RemoteFile where
  path : String
  mtime : UtcTime
  size : ℤ
  read : ReadOutcome
  deriving DecidableEq

structure RemoteSource where
  protocol : String := "sftp"
  host : String
  deriving DecidableEq

structure RemoteStream where
  remoteDirectory : String
  parser : ParserConfig := {}
  maxFilesPerRun : ℤ := 10
  maxFileSizeMb : ℤ := 5
  includeFileMetadata : Bool := false
  replay : Option (UtcTime × UtcTime) := none
  deriving DecidableEq

/-- `normalize_remote_file_transfer_protocol`. -/
def normalizeProtocol (raw : String) : Except PollError String :=
  match PyText.lower (PyText.strip (if raw = "" then "sftp" else raw)) with
  | "scp" => .ok "sftp_compatible_scp"
  | "sftp" => .ok "sftp"
  | "sftp_compatible_scp" => .ok "sftp_compatible_scp"
  | _ => .error (.sourceFetch ("source_config.protocol must be 'sftp' or 'sftp_compatible_scp' " ++
    "(legacy 'scp' accepted)"))

def RemoteStream.maxFiles (cfg : RemoteStream) : ℕ :=
  (max 1 (if cfg.maxFilesPerRun = 0 then 10 else cfg.maxFilesPerRun)).toNat

def RemoteStream.maxBytes (cfg : RemoteStream) : ℤ :=
  max 1 (if cfg.maxFileSizeMb = 0 then 5 else cfg.maxFileSizeMb) * 1024 * 1024

namespace RemoteFile

/-- `_file_tuple`. -/
def fileTuple (f : RemoteFile) : UtcTime ×ₗ String := toLex (f.mtime, f.path)

/-- `_should_skip_file`. -/
def shouldSkip (watermark : Option UtcTime × Option String) (f : RemoteFile) : Bool :=
  match watermark with
  | (some lm, some path) => decide (f.fileTuple ≤ toLex (lm, path))
  | _ => false

end RemoteFile

/-- The remote file adapter of one stream, with the runtime it calls. -/
structure RemoteAdapter where
  rt : FileRuntime
  src : RemoteSource
  cfg : RemoteStream

namespace RemoteAdapter

variable (a : RemoteAdapter) (checkpoint : Option Json.Members)

def resume : ResumeFields := checkpointResumeFields a.rt.toTextRuntime checkpoint

/-- `int(c.get("offset") or 0)`. -/
def resumeOffset : Except PollError ℤ :=
  if truthy (a.resume checkpoint).offset then a.rt.toInt (a.resume checkpoint).offset else .ok 0

/-- The time of the checkpoint prints like the time of the file. -/
def sameMtime (f : RemoteFile) : Bool :=
  PyText.strip (a.rt.str (a.resume checkpoint).mtime) = PyText.strip f.mtime.isoText

/-- `_should_skip_entire_file`. -/
def shouldSkipEntireFile (watermark : Option UtcTime × Option String) (f : RemoteFile) :
    Except PollError Bool :=
  if (a.resume checkpoint).file = f.path ∧ truthy (a.resume checkpoint).mtime ∧
      a.sameMtime checkpoint f then
    (a.resumeOffset checkpoint).map fun offset =>
      if 0 < offset ∧ offset < f.size then false else f.shouldSkip watermark
  else .ok (f.shouldSkip watermark)

/-- `_resume_start_offset`. -/
def resumeStartOffset (f : RemoteFile) (statSize : ℤ) : Except PollError ℤ :=
  let c := a.resume checkpoint
  if c.file = "" ∨ c.file ≠ f.path then .ok 0
  else
    (a.resumeOffset checkpoint).bind fun offset =>
      if c.mtime ≠ .null ∧ !a.sameMtime checkpoint f then .ok 0
      else
        (if c.size = .null then .ok statSize else a.rt.toInt c.size).map fun size =>
          if statSize < size ∨ offset ≤ 0 then 0
          else
            match normalizeParserType a.cfg.parser.parserType with
            | .ndjson | .lineText => offset
            | _ => 0

/-- Where the file is read from: at the resume offset, if what is before it did not change. -/
def startOffset (f : RemoteFile) (body : List UInt8) (statSize : ℤ) : Except PollError ℕ :=
  (a.resumeStartOffset checkpoint f statSize).map fun offset =>
    let c := a.resume checkpoint
    let expected := if c.file = f.path ∧ truthy c.hash then a.rt.str c.hash else ""
    if 0 < offset ∧ expected ≠ "" ∧ a.rt.sha256 (body.take offset.toNat) ≠ expected then 0
    else offset.toNat

/-- Errors of a parser other than `SourceFetchError` are reported as one. -/
def wrapParseError {α : Type} (path : String) : Except PollError α → Except PollError α
  | .ok x => .ok x
  | .error (.sourceFetch message) => .error (.sourceFetch message)
  | .error _ => .error (.sourceFetch ("parse failed for remote file " ++ a.rt.reprStr path))

/-- The metadata of an event that ends at `stop`. -/
def origin (protocol : String) (f : RemoteFile) (body : List UInt8) (statSize : ℤ) (stop : ℕ) :
    RemoteFileMeta where
  path := f.path
  mtime := f.mtime
  size := statSize
  protocol := protocol
  host := a.src.host
  fileHash := if a.cfg.includeFileMetadata then some (a.rt.sha256 body) else none
  offset := stop
  prefixHash := a.rt.sha256 (body.take stop)

/-- The events of a file from where it is read on. -/
def fileEvents (protocol : String) (f : RemoteFile) (body : List UInt8) (statSize : ℤ) :
    Except PollError (List Event) :=
  (a.startOffset checkpoint f body statSize).bind fun start =>
    (a.wrapParseError f.path
      (parseRecordsWithOffsets a.rt a.cfg.parser body f.path start)).map fun parsed =>
        parsed.map fun record => (a.origin protocol f body statSize record.2).attach record.1

/-- A file that is too large or cannot be read is passed over. -/
def readFile (protocol : String) (f : RemoteFile) : Except PollError (Option (List Event)) :=
  if a.cfg.maxBytes < f.size then .ok none
  else
    match f.read with
    | .osError => .ok none
    | .noTransport => .error (.sourceFetch "SSH transport unavailable for SCP file fetch")
    | .bytes body statSize => (a.fileEvents checkpoint protocol f body statSize).map some

def skips (watermark : Option UtcTime × Option String) (f : RemoteFile) : Except PollError Bool :=
  match a.cfg.replay with
  | some (start, stop) => .ok (decide (f.mtime < start ∨ stop < f.mtime))
  | none => a.shouldSkipEntireFile checkpoint watermark f

/-- `iter_remote_file_candidates` on the files that match: by time and path. -/
def candidates (listing : List RemoteFile) : List RemoteFile :=
  listing.insertionSort fun x y => x.fileTuple ≤ y.fileTuple

/-- `protocol` as normalized, once the host and the directory are there. -/
def validate : Except PollError String :=
  (normalizeProtocol a.src.protocol).bind fun protocol =>
    if a.src.host = "" then .error (.sourceFetch "REMOTE_FILE_POLLING requires host in source_config")
    else if a.cfg.remoteDirectory = "" then
      .error (.sourceFetch "stream_config.remote_directory is required")
    else .ok protocol

def watermark : Except PollError (Option UtcTime × Option String) :=
  match remoteWatermark a.rt.toTextRuntime checkpoint with
  | .ok w => .ok w
  | .error e => .error (.isoFormat e.text)

/-- `RemoteFilePollingAdapter.fetch`. -/
def fetch (listing : Except PollError (List RemoteFile)) : Except PollError (List Event) :=
  a.validate.bind fun protocol =>
    (a.watermark checkpoint).bind fun watermark =>
      listing.bind fun listing =>
        scan (a.skips checkpoint watermark) (a.readFile checkpoint protocol) a.cfg.maxFiles
          (candidates listing)

end RemoteAdapter

end Sources
