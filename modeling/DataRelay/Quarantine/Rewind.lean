import DataRelay.Lib.Steps
import DataRelay.Quarantine.Release
import DataRelay.RouteProtection.CacheTransparency
import DataRelay.Sources.RemoteFilePolling
import Mathlib

/-! Stream runs and releases of rows recorded earlier, in any order. A release writes the
checkpoint from the stored event without looking at the one it replaces. -/
namespace Quarantine
open Delivery Runner Sources

/-- The members of the last event a checkpoint is written from. -/
def checkpointMembers : List String :=
  ["s3_key", "s3_last_modified", "s3_etag", "gdc_db_watermark", "gdc_db_order_value",
    "remote_path", "gdc_remote_path", "remote_mtime", "gdc_remote_mtime", "remote_size",
    "gdc_remote_size", "gdc_remote_offset", "gdc_remote_hash"]

def processedFields : List String :=
  ["last_processed_key", "last_processed_last_modified", "last_processed_etag",
    "last_processed_db_watermark", "last_processed_db_order", "last_processed_file",
    "last_processed_mtime", "last_processed_size", "last_processed_offset", "last_processed_hash"]

/-- The fields of a checkpoint that hold a cursor. -/
def cursorFields : List String := processedFields ++ cursorAliases

/-- A field of the stored checkpoint. -/
def storedField (k : String) (checkpoint : Option Json.Members) : Json :=
  checkpoint.elim .null (getOrNull k)

def SameMembers (names : List String) (x y : Event) : Prop :=
  ∀ k ∈ names, Dict.get? k x = Dict.get? k y

theorem SameMembers.getOrNull_eq {names : List String} {x y : Event} (h : SameMembers names x y)
    {k : String} (hk : k ∈ names) : getOrNull k x = getOrNull k y := by
  rw [getOrNull, getOrNull, h k hk]

theorem checkpointField_congr {x y : Event} (h : SameMembers checkpointMembers x y) {k : String}
    (hk : k ∉ "last_success_event" :: cursorAliases) (cursorValue cursorValue' : Event → Option Json) :
    getOrNull k (checkpointValue cursorValue x) = getOrNull k (checkpointValue cursorValue' y) := by
  rw [List.mem_cons, not_or] at hk
  obtain ⟨hlast, halias⟩ := hk
  rw [getOrNull_checkpointValue halias cursorValue, getOrNull_checkpointValue halias cursorValue']
  have hget : ∀ l ∈ checkpointMembers, getOrNull l x = getOrNull l y := by
    intro l hl
    exact h.getOrNull_eq hl
  simp only [checkpointMembers, List.mem_cons, List.not_mem_nil, or_false, forall_eq_or_imp,
    forall_eq] at hget
  simp only [checkpointValue, hget, getOrNull_setUnlessNone, getOrNull_singleton, Ne.symm hlast,
    ↓reduceIte]

theorem checkpointValue_event (cursorValue : Event → Option Json) (last : Event) :
    getOrNull "last_success_event" (checkpointValue cursorValue last) = .obj last :=
  (checkpointValue_stored cursorValue last).event

/-- A release writes no alias of the cursor. -/
theorem checkpointValueFromLastEvent_alias {k : String} (hk : k ∈ cursorAliases) (last : Event) :
    getOrNull k (checkpointValueFromLastEvent last) = .null := by
  rw [checkpointValueFromLastEvent]
  simp only [cursorAliases, List.mem_cons, List.not_mem_nil, or_false] at hk
  rcases hk with rfl | rfl | rfl | rfl | rfl | rfl <;>
    simp [checkpointValue, getOrNull_singleton]

/-- How a source orders the checkpoints of a stream: where the adapter resumes from a stored
checkpoint. Of the last event it reads what the checkpoint is written from and some columns. -/
structure SourceOrder (P : Type) where
  position : Option Json.Members → WithBot P
  columns : List String
  congr : ∀ {x y : Event}, SameMembers (checkpointMembers ++ columns) x y →
    ∀ cursorValue cursorValue' : Event → Option Json,
      position (some (checkpointValue cursorValue x)) =
        position (some (checkpointValue cursorValue' y))

theorem SameMembers.left {names columns : List String} {x y : Event}
    (h : SameMembers (names ++ columns) x y) : SameMembers names x y :=
  fun k hk => h k (List.mem_append_left columns hk)

/-- Objects by time and key. -/
def s3Order (rt : TextRuntime) : SourceOrder (UtcTime ×ₗ String) where
  position checkpoint :=
    match s3Watermark rt checkpoint with
    | .ok (some t, some key) => ↑(toLex (t, key))
    | _ => ⊥
  columns := []
  congr := by
    intro x y h cursorValue cursorValue'
    have hread : s3Watermark rt (some (checkpointValue cursorValue x)) =
        s3Watermark rt (some (checkpointValue cursorValue' y)) := by
      simp only [s3Watermark, checkpointValue_event,
        checkpointField_congr h.left (k := "last_processed_key") (by decide) cursorValue cursorValue',
        checkpointField_congr h.left (k := "last_processed_last_modified") (by decide) cursorValue
          cursorValue',
        h.left.getOrNull_eq (k := "s3_key") (by decide),
        h.left.getOrNull_eq (k := "s3_last_modified") (by decide)]
    rw [hread]

/-- Files by time, path and offset. -/
def remoteOrder (a : RemoteAdapter) : SourceOrder (UtcTime ×ₗ String ×ₗ ℤ) where
  position checkpoint :=
    match a.watermark checkpoint, a.resumeOffset checkpoint with
    | .ok (some t, some path), .ok offset => ↑(toLex (t, toLex (path, offset)))
    | _, _ => ⊥
  columns := []
  congr := by
    intro x y h cursorValue cursorValue'
    have hfield : ∀ {k : String}, k ∉ "last_success_event" :: cursorAliases →
        getOrNull k (checkpointValue cursorValue x) =
          getOrNull k (checkpointValue cursorValue' y) := by
      intro k hk
      exact checkpointField_congr h.left hk cursorValue cursorValue'
    have hmember : ∀ {k : String}, k ∈ checkpointMembers → getOrNull k x = getOrNull k y := by
      intro k hk
      exact h.left.getOrNull_eq hk
    have hread : a.resume (some (checkpointValue cursorValue x)) =
        a.resume (some (checkpointValue cursorValue' y)) := by
      simp only [RemoteAdapter.resume, checkpointResumeFields, checkpointValue_event,
        hfield (k := "last_processed_file") (by decide), hfield (k := "last_processed_mtime") (by decide),
        hfield (k := "last_processed_key") (by decide),
        hfield (k := "last_processed_last_modified") (by decide),
        hfield (k := "last_processed_size") (by decide),
        hfield (k := "last_processed_offset") (by decide),
        hfield (k := "last_processed_hash") (by decide),
        hmember (k := "gdc_remote_path") (by decide), hmember (k := "remote_path") (by decide),
        hmember (k := "gdc_remote_mtime") (by decide), hmember (k := "remote_mtime") (by decide),
        hmember (k := "gdc_remote_size") (by decide), hmember (k := "remote_size") (by decide),
        hmember (k := "gdc_remote_offset") (by decide), hmember (k := "gdc_remote_hash") (by decide)]
    have hwatermark : a.watermark (some (checkpointValue cursorValue x)) =
        a.watermark (some (checkpointValue cursorValue' y)) := by
      unfold RemoteAdapter.resume at hread
      simp only [RemoteAdapter.watermark, remoteWatermark, hread]
    have hoffset : a.resumeOffset (some (checkpointValue cursorValue x)) =
        a.resumeOffset (some (checkpointValue cursorValue' y)) := by
      rw [RemoteAdapter.resumeOffset, RemoteAdapter.resumeOffset, hread]
    rw [hwatermark, hoffset]

/-- Rows by the values of the checkpoint columns, as the database orders them. -/
def databaseOrder {P : Type} (decode : Json × Json → WithBot P) (checkpointColumn : String)
    (orderColumn : Option String) : SourceOrder P where
  position checkpoint :=
    match extractComposite checkpoint checkpointColumn orderColumn with
    | some values => decode values
    | none => ⊥
  columns := checkpointColumn :: orderColumn.toList
  congr := by
    intro x y h cursorValue cursorValue'
    have hread : extractComposite (some (checkpointValue cursorValue x)) checkpointColumn orderColumn =
        extractComposite (some (checkpointValue cursorValue' y)) checkpointColumn orderColumn := by
      rw [(checkpointValue_stored cursorValue x).extractComposite_eq,
        (checkpointValue_stored cursorValue' y).extractComposite_eq, h checkpointColumn (by simp),
        h.left.getOrNull_eq (k := "gdc_db_watermark") (by decide),
        h.left.getOrNull_eq (k := "gdc_db_order_value") (by decide)]
      cases orderColumn with
      | none => rfl
      | some column => simp only [h column (by simp)]
    rw [hread]

/-! ### Runs and releases -/

/-- A row with the events it was recorded for, as they were before protection. -/
structure HeldRow where
  row : QuarantineRow
  unprotected : List Event

structure StreamState where
  checkpoint : Option Json.Members := none
  rows : List HeldRow := []

inductive StreamAction where
  /-- A run on the delivery log it finds, with the rows it records. -/
  | run (input : RunInput) (log : List Dedup.DeliveryLogRow) (recorded : List HeldRow)
  | release (i : ℕ) (call : ReleaseCall)
  | discard (i : ℕ) (lockAvailable : Bool)

namespace StreamState

def row (s : StreamState) (i : ℕ) : Option QuarantineRow := s.rows[i]?.map (·.row)

def setRow (s : StreamState) (i : ℕ) (row : QuarantineRow) : StreamState :=
  { s with rows := s.rows.modify i fun held => { held with row } }

/-- A release or discard that raises changes nothing. -/
def step (s : StreamState) : StreamAction → StreamState
  | .run input log recorded =>
    { checkpoint := (((Runner.run input log).flushed.bind (·.checkpoint)).map
        (·.checkpointValue)).or s.checkpoint
      rows := s.rows ++ recorded }
  | .release i call =>
    match call.executeQuarantineRelease (s.row i) s.checkpoint with
    | .error _ => s
    | .ok (_, row, checkpoint) => { s.setRow i row with checkpoint }
  | .discard i lockAvailable =>
    match discardQuarantineEvent lockAvailable (s.row i) with
    | .error _ => s
    | .ok row => s.setRow i row

end StreamState

section rewind

variable {P : Type} [LinearOrder P] (source : SourceOrder P) (cursorValue : Event → Option Json)

/-- The checkpoint after a release is not before the one it replaces, and a cursor field is the
one of before or what a run derives of the unprotected event, never missing. -/
structure KeepsCursor (held : Option HeldRow) (before after : Option Json.Members) : Prop where
  order : source.position before ≤ source.position after
  fields : ∀ k ∈ cursorFields, storedField k after = storedField k before ∨
    (∃ h u, held = some h ∧ h.unprotected.getLast? = some u ∧
      storedField k after = getOrNull k (checkpointValue cursorValue u)) ∧ storedField k after ≠ .null

/-- No release rewinds the stream or damages its cursor. -/
def NeverRewinds (s : StreamState) : StreamAction → Prop
  | .release i call => KeepsCursor source cursorValue s.rows[i]? s.checkpoint
    (s.step (.release i call)).checkpoint
  | _ => True

/-- A run ending with the last event of the row would be at or past the stored checkpoint and
have each of its fields, and protection left the members the checkpoint is written from. -/
structure Ahead (checkpoint : Option Json.Members) (h : HeldRow) (last u : Event) : Prop where
  stored : h.row.events.getLast? = some last
  unprotected : h.unprotected.getLast? = some u
  unmasked : SameMembers (checkpointMembers ++ source.columns) last u
  reached : source.position checkpoint ≤ source.position (some (checkpointValue cursorValue u))
  present : ∀ k ∈ processedFields, storedField k checkpoint ≠ .null →
    getOrNull k (checkpointValue cursorValue u) ≠ .null
  aliases : ∀ k ∈ cursorAliases, storedField k checkpoint = .null

/-- A row that a release writes the checkpoint from is ahead of the stream. -/
def ReleasesAhead (s : StreamState) : StreamAction → Prop
  | .release i call => ∀ h, s.rows[i]? = some h → call.Writes h.row →
    ∃ last u, Ahead source cursorValue s.checkpoint h last u
  | _ => True

variable {source cursorValue}

/-- A release from a row ahead of the stream keeps the cursor. -/
theorem Ahead.keepsCursor {checkpoint : Option Json.Members} {h : HeldRow} {last u : Event}
    (hahead : Ahead source cursorValue checkpoint h last u) :
    KeepsCursor source cursorValue (some h) checkpoint
      (some (checkpointValueFromLastEvent last)) := by
  constructor
  · calc source.position checkpoint
        ≤ source.position (some (checkpointValue cursorValue u)) := hahead.reached
      _ = source.position (some (checkpointValueFromLastEvent last)) :=
          (source.congr hahead.unmasked _ _).symm
  · intro k hk
    rcases List.mem_append.mp hk with hprocessed | halias
    · have hplain : k ∉ "last_success_event" :: cursorAliases := by
        revert k
        decide
      have hfield : getOrNull k (checkpointValueFromLastEvent last) =
          getOrNull k (checkpointValue cursorValue u) :=
        checkpointField_congr hahead.unmasked.left hplain _ _
      by_cases hafter : getOrNull k (checkpointValueFromLastEvent last) = .null
      · left
        by_contra hbefore
        have hmissing : storedField k checkpoint ≠ .null := by
          rintro hnull
          exact hbefore (hafter.trans hnull.symm)
        exact hahead.present k hprocessed hmissing (hfield.symm.trans hafter)
      · exact .inr ⟨⟨h, u, rfl, hahead.unprotected, hfield⟩, hafter⟩
    · left
      rw [hahead.aliases k halias]
      exact checkpointValueFromLastEvent_alias halias last

theorem KeepsCursor.refl (held : Option HeldRow) (checkpoint : Option Json.Members) :
    KeepsCursor source cursorValue held checkpoint checkpoint :=
  ⟨le_rfl, fun _ _ => .inl rfl⟩

/-- One step of the stream. -/
theorem neverRewinds_step (s : StreamState) (a : StreamAction)
    (h : ReleasesAhead source cursorValue s a) : NeverRewinds source cursorValue s a := by
  cases a with
  | run input log recorded => trivial
  | discard i lockAvailable => trivial
  | release i call =>
    simp only [NeverRewinds, StreamState.step]
    cases hexec : call.executeQuarantineRelease (s.row i) s.checkpoint with
    | error e => exact .refl _ _
    | ok out =>
      obtain ⟨result, row', checkpoint'⟩ := out
      rcases ReleaseCall.executeQuarantineRelease_cases hexec with hsame | hwrites
      · subst hsame
        exact .refl _ _
      · obtain ⟨row, stored, hrow, hcall, hstored, hvalue⟩ := hwrites
        subst hvalue
        rw [StreamState.row, Option.map_eq_some_iff] at hrow
        obtain ⟨held, hheld, rfl⟩ := hrow
        obtain ⟨last, u, hahead⟩ := h held hheld hcall
        have hlast : last = stored := by
          have heq := hahead.stored.symm.trans hstored
          rwa [Option.some.injEq] at heq
        subst hlast
        rw [hheld]
        exact hahead.keepsCursor

/-- In every order of runs, releases and discards. -/
theorem neverRewinds_of_releasesAhead (source : SourceOrder P)
    (cursorValue : Event → Option Json) (s : StreamState) (actions : List StreamAction)
    (h : Steps.Along StreamState.step (ReleasesAhead source cursorValue) s actions) :
    Steps.Along StreamState.step (NeverRewinds source cursorValue) s actions :=
  h.imp neverRewinds_step

end rewind

/-- The event of an object of the archive bucket. -/
def archiveEvent (key : String) : Event :=
  ({ bucket := "archive", key, etag := "e",
     lastModified := { year := 2028, month := 5, day := 11, hour := 7, minute := 6, second := 9 },
     size := 40 } : S3ObjectMeta).attach [("user", .str "alice")]

/-- Route 10 withholds the batch, route 11 delivers it. -/
def archiveRun (key : String) : RunInput where
  stream :=
    { ref := ⟨1, "archive"⟩
      routes :=
        [{ row := { id := 10, destination := { id := some 5 } }
           policy := fun es => .ok ⟨es, .quarantine, none⟩ },
         { row := { id := 11, destination := { id := some 6 } } }]
      routeIds := by decide
      engines := RouteProtection.plainEngines }
  fetched := .ok [archiveEvent key]

def archiveRow (key : String) : HeldRow where
  row := { routeId := some 10, events := [archiveEvent key] }
  unprotected := [archiveEvent key]

def archiveRelease : ReleaseCall where
  routes := .ok [{ id := 10 }, { id := 11 }]

/-- Released before the stream moves on, the row is at the stored checkpoint. -/
theorem archive_releasedInTime :
    Steps.Along StreamState.step (NeverRewinds (s3Order {}) fun _ => none) {}
        [.run (archiveRun "a.json") [] [archiveRow "a.json"], .release 0 archiveRelease] ∧
      (Steps.run StreamState.step {} [.run (archiveRun "a.json") [] [archiveRow "a.json"],
        .release 0 archiveRelease]).rows.map (·.row.status) = [.released] := by
  refine ⟨neverRewinds_of_releasesAhead (s3Order {}) (fun _ => none) {} _
    ⟨trivial, ?_, trivial⟩, by rfl⟩
  intro h hrow _
  have hrow : archiveRow "a.json" = h := by simpa [StreamState.step] using hrow
  subst hrow
  exact ⟨archiveEvent "a.json", archiveEvent "a.json", rfl, rfl, fun _ _ => rfl, by decide +kernel,
    by decide +kernel, by decide +kernel⟩

/-- Released after the next run, the row takes the stream back to the first object. -/
theorem archive_rewound :
    ¬ Steps.Along StreamState.step (NeverRewinds (s3Order {}) fun _ => none) {}
      ([.run (archiveRun "a.json") [] [archiveRow "a.json"],
        .run (archiveRun "b.json") [] [archiveRow "b.json"]] ++ [.release 0 archiveRelease]) := by
  intro h
  have horder := h.last.order
  revert horder
  decide +kernel

end Quarantine
