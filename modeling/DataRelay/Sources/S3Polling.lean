import DataRelay.Lib.LimitedScan
import DataRelay.Sources.CheckpointAgreement
import DataRelay.Sources.RecordParsers
import Mathlib.Data.List.Sort
import Mathlib.Data.Prod.Lex
import Mathlib.Data.String.Basic

/-! Polling the objects of a bucket. The listing is read in the order of last modification and
key, past the watermark of the checkpoint and up to a number of objects a run. -/
namespace Sources
open Delivery Runner LimitedScan

/-- An object as the listing shows it, with the body a read returns; `none` is a read that
fails. -/
structure S3Object where
  key : String
  lastModified : UtcTime
  etag : String := ""
  size : ℤ := 0
  body : Option (List UInt8)
  deriving DecidableEq

structure S3Source where
  endpointUrl : String
  bucket : String
  accessKey : String
  secretKey : String
  keyPrefix : String := ""
  objectKeyPattern : String := ""
  deriving DecidableEq

structure S3Stream where
  maxObjectsPerRun : ℤ := 20
  strictJsonLines : Bool := false
  /-- The window of a replay, which takes the place of the watermark. -/
  replay : Option (UtcTime × UtcTime) := none
  deriving DecidableEq

def S3Source.validate (src : S3Source) : Except PollError Unit :=
  if src.endpointUrl = "" then .error (.sourceFetch "S3 source_config.endpoint_url is required")
  else if src.bucket = "" then .error (.sourceFetch "S3 source_config.bucket is required")
  else if src.accessKey = "" ∨ src.secretKey = "" then
    .error (.sourceFetch "S3 source_config.access_key and secret_key are required")
  else .ok ()

def S3Stream.maxObjects (cfg : S3Stream) : ℕ :=
  (max 1 (if cfg.maxObjectsPerRun = 0 then 20 else cfg.maxObjectsPerRun)).toNat

/-- `etag_raw.strip('"')`. -/
def stripQuotes (s : String) : String :=
  String.ofList ((s.toList.dropWhile (· = '"')).rdropWhile (· = '"'))

namespace S3Object

/-- `_object_tuple`. -/
def objectTuple (o : S3Object) : UtcTime ×ₗ String := toLex (o.lastModified, o.key)

/-- `_should_skip_object`. -/
def shouldSkip (watermark : Option UtcTime × Option String) (o : S3Object) : Bool :=
  match watermark with
  | (some lm, some key) => decide (o.objectTuple ≤ toLex (lm, key))
  | _ => false

/-- The metadata of the object's events. -/
def origin (o : S3Object) (src : S3Source) : S3ObjectMeta where
  bucket := src.bucket
  key := o.key
  etag := stripQuotes o.etag
  lastModified := o.lastModified
  size := o.size

end S3Object

/-- A key of the stream: under the prefix, not a folder, and of the pattern if there is one. -/
def S3Source.selects (src : S3Source) (fnmatch : String → String → Bool) (o : S3Object) : Bool :=
  src.keyPrefix.toList.isPrefixOf o.key.toList && o.key ≠ "" && o.key.toList.getLast? ≠ some '/' &&
    (src.objectKeyPattern = "" || fnmatch o.key src.objectKeyPattern)

/-- `SourceFetchError` keeps its message; the other errors are named. -/
def liftIso {α : Type} : Except IsoFormatError α → Except PollError α
  | .ok a => .ok a
  | .error e => .error (.isoFormat e.text)

/-- The S3 adapter of one stream, with the runtime it calls. -/
structure S3Adapter where
  rt : FileRuntime
  fnmatch : String → String → Bool := fun _ _ => true
  src : S3Source
  cfg : S3Stream := {}

namespace S3Adapter

variable (a : S3Adapter)

/-- The listed objects of the stream in the order they are read in. -/
def contents (listing : List S3Object) : List S3Object :=
  (listing.filter (a.src.selects a.fnmatch)).insertionSort fun x y => x.objectTuple ≤ y.objectTuple

def skips (watermark : Option UtcTime × Option String) (o : S3Object) : Bool :=
  match a.cfg.replay with
  | some (start, stop) => decide (o.lastModified < start ∨ stop < o.lastModified)
  | none => o.shouldSkip watermark

/-- The records of an object, read and parsed. -/
def objectRecords (o : S3Object) : Except PollError (List Event) :=
  match o.body with
  | none => .error (.sourceFetch ("S3 GetObject failed for key=" ++ a.rt.reprStr o.key))
  | some body => parseS3ObjectRecords a.rt (!a.cfg.strictJsonLines) body o.key

def objectEvents (o : S3Object) : Except PollError (List Event) :=
  (a.objectRecords o).map fun records => records.map (o.origin a.src).attach

/-- `S3ObjectPollingAdapter.fetch`; a listing that is `none` failed. -/
def fetch (listing : Option (List S3Object)) (checkpoint : Option Json.Members) :
    Except PollError (List Event) :=
  a.src.validate.bind fun _ =>
    (liftIso (s3Watermark a.rt.toTextRuntime checkpoint)).bind fun watermark =>
      match listing with
      | none => .error (.sourceFetch "S3 ListObjectsV2 failed")
      | some listing =>
        scan (fun o => .ok (a.skips watermark o)) (fun o => (a.objectEvents o).map some)
          a.cfg.maxObjects (a.contents listing)

/-! ### What a fetch returns -/

/-- The objects past the watermark that a run reads. -/
def fetched (watermark : Option UtcTime × Option String) (listing : List S3Object) :
    List S3Object :=
  ((a.contents listing).filter fun o => !a.skips watermark o).take a.cfg.maxObjects

/-- The events of an object that can be read. -/
def emitted (o : S3Object) : List Event :=
  match a.objectEvents o with
  | .ok events => events
  | .error _ => []

variable {a}

theorem yields_objectEvents (o : S3Object) :
    yields (fun o => (a.objectEvents o).map some) o = a.emitted o := by
  simp only [yields, emitted]
  cases a.objectEvents o <;> rfl

theorem window_eq_fetched (watermark : Option UtcTime × Option String)
    (listing : List S3Object) :
    window (fun o => (a.objectEvents o).map some) (a.skips watermark) a.cfg.maxObjects
      (a.contents listing) = a.fetched watermark listing := by
  have hcounts (o : S3Object) : counts (fun o => (a.objectEvents o).map some) o = true := by
    simp only [counts]
    cases a.objectEvents o <;> rfl
  simp [window, fetched, hcounts]

theorem fetch_eq_scan {listing : List S3Object} {checkpoint : Option Json.Members}
    {watermark : Option UtcTime × Option String} (hvalid : a.src.validate = .ok ())
    (hw : s3Watermark a.rt.toTextRuntime checkpoint = .ok watermark) :
    a.fetch (some listing) checkpoint =
      scan (fun o => .ok (a.skips watermark o)) (fun o => (a.objectEvents o).map some)
        a.cfg.maxObjects (a.contents listing) := by
  simp [fetch, hvalid, hw, liftIso, Except.bind]

theorem map_some_ne_error_iff (o : S3Object) :
    (∀ e, (a.objectEvents o).map some ≠ .error e) ↔ ∃ events, a.objectEvents o = .ok events := by
  cases a.objectEvents o <;> simp [Except.map]

/-- A fetch returns the events of the objects it reads, if every one of them can be read. -/
theorem fetch_eq_ok_iff {listing : List S3Object} {checkpoint : Option Json.Members}
    {watermark : Option UtcTime × Option String} (hvalid : a.src.validate = .ok ())
    (hw : s3Watermark a.rt.toTextRuntime checkpoint = .ok watermark) (events : List Event) :
    a.fetch (some listing) checkpoint = .ok events ↔
      (∀ o ∈ a.fetched watermark listing, ∃ events, a.objectEvents o = .ok events) ∧
        events = (a.fetched watermark listing).flatMap a.emitted := by
  have hyields : yields (fun o => (a.objectEvents o).map some) = a.emitted :=
    funext yields_objectEvents
  rw [fetch_eq_scan hvalid hw, scan_eq_ok_iff a.cfg.maxObjects fun _ _ => rfl, window_eq_fetched,
    hyields]
  simp only [map_some_ne_error_iff]

/-- A fetch returns an event exactly when the objects it reads can be read and one of them has a
record. -/
theorem fetch_returns_iff {listing : List S3Object} {checkpoint : Option Json.Members}
    {watermark : Option UtcTime × Option String} (hvalid : a.src.validate = .ok ())
    (hw : s3Watermark a.rt.toTextRuntime checkpoint = .ok watermark) :
    (∃ events, a.fetch (some listing) checkpoint = .ok events ∧ events ≠ []) ↔
      (∀ o ∈ a.fetched watermark listing, ∃ events, a.objectEvents o = .ok events) ∧
        ∃ o ∈ a.fetched watermark listing, a.emitted o ≠ [] := by
  simp only [fetch_eq_ok_iff hvalid hw, and_assoc, exists_and_left, exists_eq_left]
  simp

/-- A fetch that returns has read the watermark. -/
theorem watermark_of_fetch {listing : List S3Object} {checkpoint : Option Json.Members}
    {events : List Event} (h : a.fetch (some listing) checkpoint = .ok events) :
    ∃ watermark, a.src.validate = .ok () ∧
      s3Watermark a.rt.toTextRuntime checkpoint = .ok watermark := by
  unfold fetch at h
  cases hvalid : a.src.validate with
  | error e => simp [hvalid, Except.bind] at h
  | ok _ =>
    cases hw : s3Watermark a.rt.toTextRuntime checkpoint with
    | error e => simp [hvalid, hw, liftIso, Except.bind] at h
    | ok watermark => exact ⟨watermark, rfl, rfl⟩

theorem mem_contents {listing : List S3Object} {o : S3Object} :
    o ∈ a.contents listing ↔ o ∈ listing ∧ a.src.selects a.fnmatch o = true := by
  rw [contents, List.mem_insertionSort, List.mem_filter]

theorem mem_of_mem_fetched {watermark : Option UtcTime × Option String} {listing : List S3Object}
    {o : S3Object} (h : o ∈ a.fetched watermark listing) :
    o ∈ listing ∧ a.src.selects a.fnmatch o = true :=
  mem_contents.mp (List.mem_of_mem_filter (List.mem_of_mem_take h))

theorem contents_sorted (listing : List S3Object) :
    (a.contents listing).Pairwise fun x y => x.objectTuple ≤ y.objectTuple :=
  List.pairwise_insertionSort _ _

end S3Adapter

end Sources
