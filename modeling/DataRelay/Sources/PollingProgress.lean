import DataRelay.Sources.RemoteFilePolling
import DataRelay.Sources.S3NeverSkips

/-! Whether a fetch returns an event when there is a record to return. The number of objects or
files a run may read counts those without records, and a fetch that returns nothing leaves the
watermark where it is. -/
namespace Sources
open Delivery Runner LimitedScan

/-! ### Objects -/

namespace S3Adapter

variable (a : S3Adapter) (listing : List S3Object) (checkpoint : Option Json.Members)

/-- Whenever an object past the watermark has a record, a fetch returns an event. -/
def MakesProgress : Prop :=
  ∀ watermark, a.src.validate = .ok () →
    s3Watermark a.rt.toTextRuntime checkpoint = .ok watermark →
    (∃ o ∈ a.contents listing, a.skips watermark o = false ∧ a.emitted o ≠ []) →
    ∃ events, a.fetch (some listing) checkpoint = .ok events ∧ events ≠ []

/-- If any object past the watermark has a record, then the first of them, up to the limit, can
all be read and one of them has a record. -/
def RecordInReach : Prop :=
  ∀ watermark, a.src.validate = .ok () →
    s3Watermark a.rt.toTextRuntime checkpoint = .ok watermark →
    (∃ o ∈ a.contents listing, a.skips watermark o = false ∧ a.emitted o ≠ []) →
    (∀ o ∈ a.fetched watermark listing, ∃ events, a.objectEvents o = .ok events) ∧
      ∃ o ∈ a.fetched watermark listing, a.emitted o ≠ []

variable {a listing checkpoint}

theorem makesProgress_iff : a.MakesProgress listing checkpoint ↔ a.RecordInReach listing checkpoint :=
  forall_congr' fun _ => forall_congr' fun hvalid => forall_congr' fun hw =>
    imp_congr_right fun _ => fetch_returns_iff hvalid hw

end S3Adapter

/-! ### Files -/

namespace RemoteAdapter

variable (a : RemoteAdapter) (checkpoint : Option Json.Members)

/-- The events of the records of a file that were not read before. -/
def freshEvents (protocol : String) (f : RemoteFile) : List Event :=
  match f.read with
  | .bytes body statSize =>
    match a.fileEvents checkpoint protocol f body statSize with
    | .ok events => events
    | .error _ => []
  | _ => []

/-- The file is small enough and a read of it is not refused. -/
def readable (f : RemoteFile) : Bool := decide (f.size ≤ a.cfg.maxBytes) && f.read ≠ .osError

/-- `skips` where the offset of the checkpoint is an integer. -/
def isSkipped (watermark : Option UtcTime × Option String) (f : RemoteFile) : Bool :=
  match a.skips checkpoint watermark f with
  | .ok skipped => skipped
  | .error _ => false

/-- The files past the watermark that a run reads. -/
def fetched (watermark : Option UtcTime × Option String) (listing : List RemoteFile) :
    List RemoteFile :=
  ((candidates listing).filter fun f =>
    !a.isSkipped checkpoint watermark f && a.readable f).take a.cfg.maxFiles

variable (listing : List RemoteFile)

/-- Whenever a file past the watermark, or past the offset in the file the checkpoint stopped
in, has a record, a fetch returns an event. -/
def MakesProgress : Prop :=
  ∀ protocol watermark offset, a.validate = .ok protocol → a.watermark checkpoint = .ok watermark →
    a.resumeOffset checkpoint = .ok offset →
    (∃ f ∈ candidates listing, a.isSkipped checkpoint watermark f = false ∧
      a.freshEvents checkpoint protocol f ≠ []) →
    ∃ events, a.fetch checkpoint (.ok listing) = .ok events ∧ events ≠ []

/-- If any of these files has a record, then the first of them that are small enough and can be
opened, up to the limit, all parse and one of them has a record. -/
def RecordInReach : Prop :=
  ∀ protocol watermark offset, a.validate = .ok protocol → a.watermark checkpoint = .ok watermark →
    a.resumeOffset checkpoint = .ok offset →
    (∃ f ∈ candidates listing, a.isSkipped checkpoint watermark f = false ∧
      a.freshEvents checkpoint protocol f ≠ []) →
    (∀ f ∈ a.fetched checkpoint watermark listing,
      ∃ events, a.readFile checkpoint protocol f = .ok (some events)) ∧
      ∃ f ∈ a.fetched checkpoint watermark listing, a.freshEvents checkpoint protocol f ≠ []

variable {a checkpoint listing}

theorem skips_eq_isSkipped {offset : ℤ} (h : a.resumeOffset checkpoint = .ok offset)
    (watermark : Option UtcTime × Option String) (f : RemoteFile) :
    a.skips checkpoint watermark f = .ok (a.isSkipped checkpoint watermark f) := by
  simp only [isSkipped]
  cases hskips : a.skips checkpoint watermark f with
  | ok skipped => rfl
  | error e =>
    simp only [skips, shouldSkipEntireFile, h, Except.map] at hskips
    split at hskips
    · cases hskips
    · split_ifs at hskips

theorem counts_readFile (protocol : String) (f : RemoteFile) :
    counts (a.readFile checkpoint protocol) f = a.readable f := by
  simp only [counts, readFile, readable]
  by_cases hsize : a.cfg.maxBytes < f.size
  · simp [hsize, not_le.mpr hsize]
  · cases hread : f.read with
    | osError => simp [hsize]
    | noTransport => simp [hsize, not_lt.mp hsize]
    | bytes body statSize =>
      cases hevents : a.fileEvents checkpoint protocol f body statSize <;>
        simp [hsize, not_lt.mp hsize, hevents, Except.map]

theorem yields_readFile {protocol : String} {f : RemoteFile} (hf : a.readable f = true) :
    yields (a.readFile checkpoint protocol) f = a.freshEvents checkpoint protocol f := by
  simp only [readable, Bool.and_eq_true, decide_eq_true_eq] at hf
  simp only [yields, readFile, freshEvents, if_neg (not_lt.mpr hf.1)]
  cases hread : f.read with
  | osError => rfl
  | noTransport => rfl
  | bytes body statSize =>
    cases hevents : a.fileEvents checkpoint protocol f body statSize <;>
      simp [hevents, Except.map]

theorem ne_error_iff {protocol : String} {f : RemoteFile} (hf : a.readable f = true) :
    (∀ e, a.readFile checkpoint protocol f ≠ .error e) ↔
      ∃ events, a.readFile checkpoint protocol f = .ok (some events) := by
  have hcounts : counts (a.readFile checkpoint protocol) f = true :=
    (counts_readFile protocol f).trans hf
  simp only [counts] at hcounts
  cases hread : a.readFile checkpoint protocol f with
  | error e => simp
  | ok events =>
    cases events with
    | none => simp [hread] at hcounts
    | some events => simp

theorem readable_of_mem_fetched {watermark : Option UtcTime × Option String} {f : RemoteFile}
    (hf : f ∈ a.fetched checkpoint watermark listing) : a.readable f = true := by
  have hmem := List.mem_filter.mp (List.mem_of_mem_take hf)
  exact (Bool.and_eq_true _ _ ▸ hmem.2).2

/-- A fetch returns the events of the files it reads, when these all parse. -/
theorem fetch_eq_ok_iff {protocol : String} {watermark : Option UtcTime × Option String}
    {offset : ℤ} (hvalid : a.validate = .ok protocol)
    (hw : a.watermark checkpoint = .ok watermark) (hoff : a.resumeOffset checkpoint = .ok offset)
    (events : List Event) :
    a.fetch checkpoint (.ok listing) = .ok events ↔
      (∀ f ∈ a.fetched checkpoint watermark listing,
        ∃ events, a.readFile checkpoint protocol f = .ok (some events)) ∧
        events = (a.fetched checkpoint watermark listing).flatMap
          (a.freshEvents checkpoint protocol) := by
  have hscan : a.fetch checkpoint (.ok listing) = scan (a.skips checkpoint watermark)
      (a.readFile checkpoint protocol) a.cfg.maxFiles (candidates listing) := by
    simp [fetch, hvalid, hw, Except.bind]
  have hwindow : window (a.readFile checkpoint protocol) (a.isSkipped checkpoint watermark)
      a.cfg.maxFiles (candidates listing) = a.fetched checkpoint watermark listing := by
    simp only [window, fetched, counts_readFile]
  have hyields : (a.fetched checkpoint watermark listing).flatMap
      (yields (a.readFile checkpoint protocol)) =
        (a.fetched checkpoint watermark listing).flatMap (a.freshEvents checkpoint protocol) := by
    rw [List.flatMap_def, List.flatMap_def]
    congr 1
    apply List.map_congr_left
    intro f hf
    exact yields_readFile (readable_of_mem_fetched hf)
  rw [hscan, scan_eq_ok_iff a.cfg.maxFiles fun f _ => skips_eq_isSkipped hoff watermark f, hwindow,
    hyields]
  refine and_congr_left fun _ => ?_
  exact forall₂_congr fun f hf => ne_error_iff (readable_of_mem_fetched hf)

/-- A fetch returns an event exactly when the files it reads parse and one of them has a record. -/
theorem fetch_returns_iff {protocol : String} {watermark : Option UtcTime × Option String}
    {offset : ℤ} (hvalid : a.validate = .ok protocol)
    (hw : a.watermark checkpoint = .ok watermark) (hoff : a.resumeOffset checkpoint = .ok offset) :
    (∃ events, a.fetch checkpoint (.ok listing) = .ok events ∧ events ≠ []) ↔
      (∀ f ∈ a.fetched checkpoint watermark listing,
        ∃ events, a.readFile checkpoint protocol f = .ok (some events)) ∧
        ∃ f ∈ a.fetched checkpoint watermark listing, a.freshEvents checkpoint protocol f ≠ [] := by
  simp only [fetch_eq_ok_iff hvalid hw hoff, and_assoc, exists_and_left, exists_eq_left]
  simp

theorem makesProgress_iff : a.MakesProgress checkpoint listing ↔ a.RecordInReach checkpoint listing :=
  forall_congr' fun _ => forall_congr' fun _ => forall_congr' fun _ => forall_congr' fun hvalid =>
    forall_congr' fun hw => forall_congr' fun hoff => imp_congr_right fun _ =>
      fetch_returns_iff hvalid hw hoff

end RemoteAdapter

/-- Polling makes progress exactly where a record is in reach of the limit. -/
theorem polling_makesProgress_iff (s3 : S3Adapter) (objects : List S3Object)
    (remote : RemoteAdapter) (files : List RemoteFile) (checkpoint : Option Json.Members) :
    (s3.MakesProgress objects checkpoint ↔ s3.RecordInReach objects checkpoint) ∧
      (remote.MakesProgress checkpoint files ↔ remote.RecordInReach checkpoint files) :=
  ⟨S3Adapter.makesProgress_iff, RemoteAdapter.makesProgress_iff⟩

/-- One object a run; the first in order is empty. -/
def emptyFirstAdapter : S3Adapter where
  rt := asciiRuntime
  src := auditBucket.src
  cfg := { maxObjectsPerRun := 1 }

def emptyFirstListing : List S3Object :=
  [{ key := "a.json", lastModified := auditTime, body := some [] }, auditObject "b.json"]

/-- One file a run; the first in order has no line. -/
def blankFirstAdapter : RemoteAdapter where
  rt := asciiRuntime
  src := { host := "files.example" }
  cfg := { remoteDirectory := "/in", maxFilesPerRun := 1 }

def blankFirstListing : List RemoteFile :=
  [{ path := "/in/a.ndjson", mtime := auditTime, size := 1, read := .bytes (asciiBytes "\n") 1 },
    { path := "/in/b.ndjson", mtime := auditTime, size := 10,
      read := .bytes (asciiBytes "\x7b\"id\": 1\x7d\n") 10 }]

theorem recordlessFirst_not_makesProgress :
    ¬ emptyFirstAdapter.MakesProgress emptyFirstListing none ∧
      ¬ blankFirstAdapter.MakesProgress none blankFirstListing := by
  constructor
  · intro h
    obtain ⟨events, hfetch, hne⟩ := h (none, none) (by decide +kernel) rfl (by decide +kernel)
    have hnone : emptyFirstAdapter.fetch (some emptyFirstListing) none = .ok [] := by
      rfl
    exact hne (Except.ok.inj (hfetch.symm.trans hnone))
  · intro h
    obtain ⟨events, hfetch, hne⟩ := h "sftp" (none, none) 0 (by decide +kernel) (by decide +kernel)
      (by decide +kernel) (by decide +kernel)
    have hnone : blankFirstAdapter.fetch none (.ok blankFirstListing) = .ok [] := by decide +kernel
    exact hne (Except.ok.inj (hfetch.symm.trans hnone))

end Sources
