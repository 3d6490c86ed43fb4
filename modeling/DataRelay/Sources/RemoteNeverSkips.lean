import DataRelay.Lib.Steps
import DataRelay.Sources.LineResume
import DataRelay.Sources.PollingProgress

/-! Files that appear and grow between polling runs. A run moves the watermark to the file of its
last event and to the offset in it; a file the run passed over, or one that comes up at or before
the watermark, is not read again. -/
namespace Sources
open Delivery Runner

structure DirectoryFile where
  path : String
  mtime : UtcTime
  content : List UInt8
  deriving DecidableEq

namespace DirectoryFile

def fileTuple (f : DirectoryFile) : UtcTime ×ₗ String := toLex (f.mtime, f.path)

/-- The file in a listing, with what reading it comes to. -/
def listed (fails : String → Bool) (f : DirectoryFile) : RemoteFile where
  path := f.path
  mtime := f.mtime
  size := f.content.length
  read := if fails f.path then .osError else .bytes f.content f.content.length

end DirectoryFile

/-- A stream on a remote directory: how it is read, and what its route makes of an event. -/
structure RemotePoller where
  rt : FileRuntime
  src : RemoteSource
  remoteDirectory : String
  parser : ParserConfig := {}
  maxFileSizeMb : ℤ := 5
  includeFileMetadata : Bool := false
  transform : Event → Event := id
  cursorValue : Event → Option Json := fun _ => none

structure DirectoryState where
  files : List DirectoryFile := []
  checkpoint : Option Json.Members := none
  /-- The events of the runs so far. -/
  runs : List (List Event) := []

inductive DirectoryAction where
  /-- A file appears, or the one of its path grows or is replaced. -/
  | put (f : DirectoryFile)
  | remove (path : String)
  /-- A run that may read so many files; reading those of `fails` raises an `OSError`. -/
  | poll (maxFilesPerRun : ℤ) (fails : String → Bool)

/-- The records came out as events of the file of that path, in their order. -/
def EmittedAs (path : String) (records : List Event) (runs : List (List Event)) : Prop :=
  ∃ events : List Event, events.Sublist runs.flatten ∧
    List.Forall₂ (fun record event => ∃ m : RemoteFileMeta, m.path = path ∧ event = m.attach record)
      records events

namespace RemotePoller

variable (p : RemotePoller)

def adapter (maxFilesPerRun : ℤ) : RemoteAdapter where
  rt := p.rt
  src := p.src
  cfg :=
    { remoteDirectory := p.remoteDirectory
      parser := p.parser
      maxFilesPerRun := maxFilesPerRun
      maxFileSizeMb := p.maxFileSizeMb
      includeFileMetadata := p.includeFileMetadata }

def listing (fails : String → Bool) (s : DirectoryState) : List RemoteFile :=
  s.files.map (·.listed fails)

def watermark (s : DirectoryState) : Except PollError (Option UtcTime × Option String) :=
  (p.adapter 0).watermark s.checkpoint

def resume (s : DirectoryState) : ResumeFields := (p.adapter 0).resume s.checkpoint

/-- A run whose fetch fails changes nothing; else its events are delivered, and the checkpoint
moves when there are any. -/
def step (s : DirectoryState) : DirectoryAction → DirectoryState
  | .put f => { s with files := s.files.filter (·.path ≠ f.path) ++ [f] }
  | .remove path => { s with files := s.files.filter (·.path ≠ path) }
  | .poll maxFilesPerRun fails =>
    match (p.adapter maxFilesPerRun).fetch s.checkpoint (.ok (listing fails s)) with
    | .error _ => s
    | .ok events =>
      { s with
        runs := s.runs ++ [events]
        checkpoint :=
          if events = [] then s.checkpoint
          else storedCheckpoint p.cursorValue p.transform events }

def withinLimit (f : DirectoryFile) : Prop := (f.content.length : ℤ) ≤ (p.adapter 0).cfg.maxBytes

/-- The complete records of a file. -/
def recordsOf (f : DirectoryFile) : List Event :=
  if p.parser.byLines then lineRecords p.rt p.parser f.content 0
  else
    match parseRecordsWithOffsets p.rt p.parser f.content f.path 0 with
    | .ok records => records.map Prod.fst
    | .error _ => []

/-- Every complete record of the file has been emitted. -/
def Emitted (s : DirectoryState) (f : DirectoryFile) : Prop :=
  EmittedAs f.path (p.recordsOf f) s.runs

/-- Every file at or before the watermark has been emitted. -/
def NeverSkips (s : DirectoryState) : Prop :=
  ∀ lm path, p.watermark s = .ok (some lm, some path) → ∀ f ∈ s.files, p.withinLimit f →
    f.fileTuple ≤ toLex (lm, path) → p.Emitted s f

/-- After every successful run no file at or before the watermark was left out. -/
def RunsSkipNothing (s : DirectoryState) : DirectoryAction → Prop
  | .poll maxFilesPerRun fails =>
    ∀ events, (p.adapter maxFilesPerRun).fetch s.checkpoint (.ok (listing fails s)) = .ok events →
      p.NeverSkips (p.step s (.poll maxFilesPerRun fails))
  | _ => True

/-- The event of every record reads back as the file and the offset. -/
def ReadsBack (f : DirectoryFile) : Prop :=
  ∀ (m : RemoteFileMeta) (record : Event), m.path = f.path → m.mtime = f.mtime →
    Unshadowed p.rt.toTextRuntime (.remoteFile m) record (p.transform (m.attach record))

/-- The checkpoint stopped at the end of a line inside this file, which has grown since. -/
structure GrowsOn (s : DirectoryState) (f : DirectoryFile) (offset : ℕ) : Prop where
  file : (p.resume s).file = f.path
  mtime : (p.resume s).mtime = .str f.mtime.isoText
  stopped : (p.resume s).offset = .int offset
  inside : 0 < offset ∧ offset < f.content.length
  grown : ∃ g ∈ s.files, g.path = f.path ∧ g.mtime = f.mtime ∧ g.content <+: f.content
  endsLine : p.parser.byLines = true → EndsLine f.content offset

/-- A file that comes up is past the watermark, unless it was there or has no record and is not the
file the checkpoint stopped in, or is that file, grown. A read fails only on a file past the watermark, and then
no later file of the run has a record. -/
def Unhindered (s : DirectoryState) : DirectoryAction → Prop
  | .put f => p.ReadsBack f ∧ ∀ lm path, p.watermark s = .ok (some lm, some path) →
    f.fileTuple ≤ toLex (lm, path) → p.withinLimit f →
      (p.recordsOf f = [] ∧ f.path ≠ (p.resume s).file) ∨ f ∈ s.files ∨
        ∃ offset, p.GrowsOn s f offset
  | .remove _ => True
  | .poll maxFilesPerRun fails => ∀ protocol watermark, (p.adapter 0).validate = .ok protocol →
    p.watermark s = .ok watermark → ∀ f ∈ s.files, p.withinLimit f → fails f.path = true →
      (p.adapter maxFilesPerRun).isSkipped s.checkpoint watermark (f.listed fails) = false →
        (f.listed fails).shouldSkip watermark = false ∧
          ∀ g ∈ (p.adapter maxFilesPerRun).fetched s.checkpoint watermark (listing fails s),
            (p.adapter maxFilesPerRun).freshEvents s.checkpoint protocol g ≠ [] →
              g.fileTuple < f.fileTuple

end RemotePoller

/-! ### Emitted records -/

namespace EmittedAs

variable {path : String} {records rest run : List Event} {runs : List (List Event)}

theorem nil (path : String) (runs : List (List Event)) : EmittedAs path [] runs :=
  ⟨[], List.nil_sublist _, .nil⟩

theorem later (h : EmittedAs path records runs) (run : List Event) :
    EmittedAs path records (runs ++ [run]) := by
  obtain ⟨events, hsub, hall⟩ := h
  refine ⟨events, hsub.trans ?_, hall⟩
  rw [List.flatten_append]
  exact List.sublist_append_left _ _

/-- The records of one run follow those of the runs before. -/
theorem append (h : EmittedAs path records runs) {events : List Event} (hsub : events.Sublist run)
    (hall : List.Forall₂ (fun record event =>
      ∃ m : RemoteFileMeta, m.path = path ∧ event = m.attach record) rest events) :
    EmittedAs path (records ++ rest) (runs ++ [run]) := by
  obtain ⟨earlier, hearlier, hearlierAll⟩ := h
  refine ⟨earlier ++ events, ?_, List.rel_append hearlierAll hall⟩
  rw [List.flatten_append]
  exact hearlier.append (by simpa using hsub)

theorem left (h : EmittedAs path (records ++ rest) runs) : EmittedAs path records runs := by
  obtain ⟨events, hsub, hall⟩ := h
  refine ⟨events.take records.length, (List.take_sublist _ _).trans hsub, ?_⟩
  have htake := List.forall₂_take records.length hall
  rwa [List.take_left] at htake

end EmittedAs

/-! ### The mark of a checkpoint -/

/-- Where a checkpoint stopped. -/
structure Mark where
  path : String
  mtime : UtcTime
  offset : ℕ

/-- The checkpoint reads back as the mark. -/
def Marks (rt : TextRuntime) (checkpoint : Option Json.Members) : Option Mark → Prop
  | none => checkpoint = none
  | some k => (checkpointResumeFields rt checkpoint).file = k.path ∧
    (checkpointResumeFields rt checkpoint).mtime = .str k.mtime.isoText ∧
    (checkpointResumeFields rt checkpoint).offset = .int k.offset

/-- The mark is inside the file. -/
def Mark.Inside (k : Mark) (path : String) (mtime : UtcTime) (size : ℤ) : Prop :=
  k.path = path ∧ k.mtime = mtime ∧ 0 < k.offset ∧ (k.offset : ℤ) < size

section marks

variable {a : RemoteAdapter} {checkpoint : Option Json.Members} {mark : Option Mark}

theorem isoText_injective : Function.Injective UtcTime.isoText := by
  intro t u h
  have hchars : t.isoChars = u.isoChars := by
    have := congrArg String.toList h
    simpa [UtcTime.isoText] using this
  have hread := congrArg UtcTime.ofIsoChars hchars
  rw [UtcTime.ofIsoChars_isoChars, UtcTime.ofIsoChars_isoChars, Option.some.injEq] at hread
  exact hread

theorem Marks.resumeOffset (h : Marks a.rt.toTextRuntime checkpoint mark) :
    a.resumeOffset checkpoint = .ok (mark.elim 0 fun k => (k.offset : ℤ)) := by
  cases mark with
  | none =>
    have hnone : checkpoint = none := h
    subst hnone
    rfl
  | some k =>
    obtain ⟨-, -, hoffset⟩ := h
    simp only [RemoteAdapter.resumeOffset, RemoteAdapter.resume, hoffset, Option.elim_some]
    by_cases hzero : k.offset = 0
    · simp [hzero, truthy]
    · simp [hzero, truthy, FileRuntime.toInt]

theorem Marks.watermark (h : Marks a.rt.toTextRuntime checkpoint mark) :
    a.watermark checkpoint = .ok (mark.map (·.mtime),
      mark.bind fun k => if k.path = "" then none else some k.path) := by
  cases mark with
  | none =>
    have hnone : checkpoint = none := h
    subst hnone
    rfl
  | some k =>
    obtain ⟨hfile, hmtime, -⟩ := h
    simp [RemoteAdapter.watermark, remoteWatermark, hfile, hmtime, parseIsoDt_isoText, Except.map]

theorem Marks.sameMtime {k : Mark} (h : Marks a.rt.toTextRuntime checkpoint (some k))
    (f : RemoteFile) : a.sameMtime checkpoint f = true ↔ k.mtime = f.mtime := by
  obtain ⟨-, hmtime, -⟩ := h
  have hstr : a.rt.str (.str k.mtime.isoText) = k.mtime.isoText := by
    simp [TextRuntime.str, Dedup.scalarText]
  simp only [RemoteAdapter.sameMtime, RemoteAdapter.resume, hmtime, hstr, strip_isoText,
    decide_eq_true_eq]
  exact isoText_injective.eq_iff

/-- A file at or before the watermark is skipped, but for the one the mark is inside. -/
theorem Marks.isSkipped_iff (h : Marks a.rt.toTextRuntime checkpoint mark)
    (hreplay : a.cfg.replay = none) (watermark : Option UtcTime × Option String) (f : RemoteFile) :
    a.isSkipped checkpoint watermark f = true ↔
      f.shouldSkip watermark = true ∧ ∀ k ∈ mark, ¬ k.Inside f.path f.mtime f.size := by
  simp only [RemoteAdapter.isSkipped, RemoteAdapter.skips, hreplay,
    RemoteAdapter.shouldSkipEntireFile]
  cases mark with
  | none =>
    have hnone : checkpoint = none := h
    subst hnone
    simp [RemoteAdapter.resume, checkpointResumeFields, truthy]
  | some k =>
    have hsame := h.sameMtime f
    have hoffset : a.resumeOffset checkpoint = .ok (k.offset : ℤ) := h.resumeOffset
    obtain ⟨hfile, hmtime, -⟩ := h
    have htruthy : truthy (.str k.mtime.isoText) = true := truthy_isoText k.mtime
    simp only [RemoteAdapter.resume, hfile, hmtime, htruthy, hsame, hoffset, Except.map, true_and,
      Option.mem_def, Option.some.injEq, forall_eq', Mark.Inside]
    by_cases hpath : k.path = f.path <;> by_cases htime : k.mtime = f.mtime
    · have hcast : (0 < k.offset ∧ (k.offset : ℤ) < f.size) ↔
          0 < (k.offset : ℤ) ∧ (k.offset : ℤ) < f.size := by
        rw [Int.natCast_pos]
      simp only [hpath, htime, and_self, ↓reduceIte, true_and, hcast]
      by_cases hinside : 0 < (k.offset : ℤ) ∧ (k.offset : ℤ) < f.size
      · rw [if_pos hinside]
        constructor
        · intro hfalse
          cases hfalse
        · rintro ⟨-, hnot⟩
          exact absurd hinside hnot
      · rw [if_neg hinside]
        exact ⟨fun hskip => ⟨hskip, hinside⟩, And.left⟩
    all_goals simp [hpath, htime]

/-- A file is read from its start, or from the mark in it. -/
theorem Marks.startOffset_cases (h : Marks a.rt.toTextRuntime checkpoint mark) {f : RemoteFile}
    {body : List UInt8} {statSize : ℤ} {start : ℕ}
    (hstart : a.startOffset checkpoint f body statSize = .ok start) :
    start = 0 ∨ ∃ k ∈ mark, k.path ≠ "" ∧ f.path = k.path ∧ f.mtime = k.mtime ∧
      start = k.offset ∧ a.cfg.parser.byLines = true := by
  have hresumed : ∃ offset : ℤ, a.resumeStartOffset checkpoint f statSize = .ok offset ∧
      (start = 0 ∨ start = offset.toNat) := by
    unfold RemoteAdapter.startOffset at hstart
    cases hoffset : a.resumeStartOffset checkpoint f statSize with
    | error e => simp [hoffset, Except.map] at hstart
    | ok offset =>
      simp only [hoffset, Except.map, Except.ok.injEq] at hstart
      refine ⟨offset, rfl, ?_⟩
      split_ifs at hstart
      all_goals
        first
        | exact .inl hstart.symm
        | exact .inr hstart.symm
  obtain ⟨offset, hoffset, hcases⟩ := hresumed
  rcases hcases with hzero | hresume
  · exact .inl hzero
  · cases mark with
    | none =>
      have hnone : checkpoint = none := h
      subst hnone
      simp only [RemoteAdapter.resumeStartOffset, RemoteAdapter.resume, checkpointResumeFields,
        true_or, ↓reduceIte, Except.ok.injEq] at hoffset
      left
      rw [hresume, ← hoffset]
      rfl
    | some k =>
      have hsame := h.sameMtime f
      have hresumeOffset : a.resumeOffset checkpoint = .ok (k.offset : ℤ) := h.resumeOffset
      have hfile : (a.resume checkpoint).file = k.path := h.1
      have hmtime : (a.resume checkpoint).mtime = .str k.mtime.isoText := h.2.1
      simp only [RemoteAdapter.resumeStartOffset, hfile, hmtime, hresumeOffset, Except.bind] at hoffset
      have hzero : offset = 0 → start = 0 := by
        intro hzero
        rw [hresume, hzero]
        rfl
      by_cases hother : k.path = "" ∨ k.path ≠ f.path
      · rw [if_pos hother, Except.ok.injEq] at hoffset
        exact .inl (hzero hoffset.symm)
      rw [if_neg hother] at hoffset
      by_cases hmoved : Json.str k.mtime.isoText ≠ Json.null ∧ (!a.sameMtime checkpoint f) = true
      · rw [if_pos hmoved, Except.ok.injEq] at hoffset
        exact .inl (hzero hoffset.symm)
      rw [if_neg hmoved] at hoffset
      push Not at hother
      have htime : f.mtime = k.mtime := by
        apply Eq.symm
        rw [← hsame]
        simpa using hmoved
      generalize (if (a.resume checkpoint).size = Json.null then Except.ok statSize
        else a.rt.toInt (a.resume checkpoint).size) = size at hoffset
      cases size with
      | error e => cases hoffset
      | ok size =>
        simp only [Except.map, Except.ok.injEq] at hoffset
        by_cases hshrunk : statSize < size ∨ (k.offset : ℤ) ≤ 0
        · rw [if_pos hshrunk] at hoffset
          exact .inl (hzero hoffset.symm)
        rw [if_neg hshrunk] at hoffset
        cases htype : normalizeParserType a.cfg.parser.parserType with
        | ndjson =>
          simp only [htype] at hoffset
          exact .inr ⟨k, rfl, hother.1, hother.2.symm, htime, by omega,
            by simp [ParserConfig.byLines, htype]⟩
        | lineText =>
          simp only [htype] at hoffset
          exact .inr ⟨k, rfl, hother.1, hother.2.symm, htime, by omega,
            by simp [ParserConfig.byLines, htype]⟩
        | _ =>
          simp only [htype] at hoffset
          exact .inl (hzero hoffset.symm)

end marks

namespace RemotePoller

variable {p : RemotePoller} {s : DirectoryState} {mark : Option Mark}

/-- Of the file the checkpoint stopped in, what is before the mark has been emitted. -/
structure UpTo (p : RemotePoller) (s : DirectoryState) (f : DirectoryFile) (offset : ℕ) : Prop where
  started : 0 < offset ∨ f.content.length ≤ offset
  le : offset ≤ f.content.length
  endsLine : p.parser.byLines = true → EndsLine f.content offset
  lines : p.parser.byLines = true →
    EmittedAs f.path (lineRecords p.rt p.parser (f.content.take offset) 0) s.runs
  whole : p.parser.byLines = false → f.content.length ≤ offset → p.Emitted s f

/-- What holds between the runs: the checkpoint reads back as its mark, and all files at or before
it have been emitted, the file it stopped in up to there. -/
structure Polled (p : RemotePoller) (s : DirectoryState) (mark : Option Mark) : Prop where
  paths : (s.files.map DirectoryFile.path).Nodup
  readsBack : ∀ f ∈ s.files, p.ReadsBack f
  marks : Marks p.rt.toTextRuntime s.checkpoint mark
  upTo : ∀ k ∈ mark, k.path ≠ "" → ∀ f ∈ s.files, p.withinLimit f → f.path = k.path →
    f.mtime = k.mtime → p.UpTo s f k.offset
  emitted : ∀ k ∈ mark, k.path ≠ "" → ∀ f ∈ s.files, p.withinLimit f →
    f.fileTuple ≤ toLex (k.mtime, k.path) → ¬ (f.path = k.path ∧ f.mtime = k.mtime) → p.Emitted s f

theorem recordsOf_lines {f : DirectoryFile} (h : p.parser.byLines = true) :
    p.recordsOf f = lineRecords p.rt p.parser f.content 0 := by
  simp [recordsOf, h]

/-- What a read of the file from its start gives. -/
theorem recordsOf_parsed {f : DirectoryFile} {start : ℕ} {parsed : List (Event × ℕ)}
    (h : parseRecordsWithOffsets p.rt p.parser f.content f.path start = .ok parsed)
    (hstart : start = 0 ∨ p.parser.byLines = false) : p.recordsOf f = parsed.map Prod.fst := by
  cases hlines : p.parser.byLines with
  | true =>
    have hzero : start = 0 := by simpa [hlines] using hstart
    subst hzero
    rw [recordsOf_lines hlines, parsed_records hlines h]
  | false => simp [recordsOf, hlines, (parsed_whole hlines h).1]

/-- A mark that is not inside the file is at its end. -/
theorem UpTo.emitted {f : DirectoryFile} {offset : ℕ} (h : p.UpTo s f offset)
    (hend : f.content.length ≤ offset) : p.Emitted s f := by
  cases hlines : p.parser.byLines with
  | true =>
    have hemitted := h.lines hlines
    rw [List.take_of_length_le hend] at hemitted
    rw [Emitted, recordsOf_lines hlines]
    exact hemitted
  | false => exact h.whole hlines hend

theorem Emitted.later {f : DirectoryFile} (h : p.Emitted s f) (run : List Event)
    (checkpoint : Option Json.Members) :
    p.Emitted { s with runs := s.runs ++ [run], checkpoint := checkpoint } f :=
  EmittedAs.later h run

theorem Polled.watermark (h : p.Polled s mark) : p.watermark s = .ok (mark.map (·.mtime),
    mark.bind fun k => if k.path = "" then none else some k.path) :=
  Marks.watermark (a := p.adapter 0) h.marks

/-- The watermark is the mark of a file with a path. -/
theorem Polled.mark_of_watermark (h : p.Polled s mark) {lm : UtcTime} {path : String}
    (hw : p.watermark s = .ok (some lm, some path)) :
    ∃ k ∈ mark, k.path ≠ "" ∧ k.mtime = lm ∧ k.path = path := by
  rw [h.watermark, Except.ok.injEq, Prod.mk.injEq] at hw
  cases mark with
  | none => simp at hw
  | some k =>
    simp only [Option.map_some, Option.some.injEq, Option.bind_some] at hw
    obtain ⟨hlm, hpath⟩ := hw
    split_ifs at hpath with hempty
    exact ⟨k, rfl, hempty, hlm, by simpa using hpath⟩

theorem shouldSkip_listed {fails : String → Bool} {f : DirectoryFile}
    {watermark : Option UtcTime × Option String} : (f.listed fails).shouldSkip watermark = true ↔
      ∃ lm path, watermark = (some lm, some path) ∧ f.fileTuple ≤ toLex (lm, path) := by
  obtain ⟨_ | lm, _ | path⟩ := watermark
  case some.some =>
    constructor
    · intro hskip
      exact ⟨lm, path, rfl, of_decide_eq_true hskip⟩
    · rintro ⟨lm', path', heq, hle⟩
      cases heq
      exact decide_eq_true hle
  all_goals simp [RemoteFile.shouldSkip]

/-! ### Changes of the directory -/

theorem Polled.remove (h : p.Polled s mark) (path : String) :
    p.Polled (p.step s (.remove path)) mark := by
  have hmem : ∀ {f}, f ∈ (p.step s (.remove path)).files → f ∈ s.files := by
    intro f hf
    exact List.mem_of_mem_filter hf
  refine ⟨?_, ?_, h.marks, ?_, ?_⟩
  · exact h.paths.sublist (List.filter_sublist.map DirectoryFile.path)
  · intro f hf
    exact h.readsBack f (hmem hf)
  · intro k hk hne f hf hlimit hpath htime
    obtain ⟨hstarted, hle, hends, hlines, hwhole⟩ := h.upTo k hk hne f (hmem hf) hlimit hpath htime
    exact ⟨hstarted, hle, hends, hlines, hwhole⟩
  · intro k hk hne f hf hlimit hle hother
    exact h.emitted k hk hne f (hmem hf) hlimit hle hother

/-- The file the checkpoint stopped in, grown. -/
theorem Polled.growsOn (h : p.Polled s mark) {k : Mark} (hk : k ∈ mark) (hne : k.path ≠ "")
    {f : DirectoryFile} {offset : ℕ} (hgrows : p.GrowsOn s f offset) (hlimit : p.withinLimit f) :
    f.path = k.path ∧ f.mtime = k.mtime ∧ p.UpTo s f k.offset := by
  have hmarks : Marks p.rt.toTextRuntime s.checkpoint (some k) := by
    rw [← Option.mem_def.mp hk]
    exact h.marks
  obtain ⟨hfile, hmtime, hoffset⟩ := hmarks
  have hpath : f.path = k.path := hgrows.file.symm.trans hfile
  have htime : f.mtime = k.mtime := by
    have htext := hgrows.mtime.symm.trans hmtime
    rw [Json.str.injEq] at htext
    exact isoText_injective htext
  have hsame : offset = k.offset := by
    have hint := hgrows.stopped.symm.trans hoffset
    rw [Json.int.injEq] at hint
    exact_mod_cast hint
  subst hsame
  obtain ⟨g, hg, hgpath, hgtime, extra, hextra⟩ := hgrows.grown
  have hlength : g.content.length ≤ f.content.length := by
    rw [← hextra, List.length_append]
    omega
  have hglimit : p.withinLimit g := by
    unfold withinLimit at hlimit ⊢
    omega
  have hup := h.upTo k hk hne g hg hglimit (hgpath.trans hpath) (hgtime.trans htime)
  have htake : f.content.take k.offset = g.content.take k.offset := by
    rw [← hextra, List.take_append_of_le_length hup.le]
  refine ⟨hpath, htime, .inl hgrows.inside.1, hgrows.inside.2.le, hgrows.endsLine, ?_, ?_⟩
  · intro hlines
    rw [htake, ← hgpath]
    exact hup.lines hlines
  · intro _ hend
    have := hgrows.inside.2
    omega

theorem Polled.put (h : p.Polled s mark) {f : DirectoryFile} (hput : p.Unhindered s (.put f)) :
    p.Polled (p.step s (.put f)) mark := by
  obtain ⟨hback, hput⟩ := hput
  have hmem : ∀ {x}, x ∈ (p.step s (.put f)).files → x ∈ s.files ∧ x.path ≠ f.path ∨ x = f := by
    intro x hx
    simpa [step, List.mem_append, List.mem_filter] using hx
  have hcomes : ∀ k ∈ mark, k.path ≠ "" → p.withinLimit f →
      f.fileTuple ≤ toLex (k.mtime, k.path) →
        (f.path = k.path → f.mtime = k.mtime → p.UpTo s f k.offset) ∧
          (¬ (f.path = k.path ∧ f.mtime = k.mtime) → p.Emitted s f) := by
    intro k hk hne hlimit hle
    have hw : p.watermark s = .ok (some k.mtime, some k.path) := by
      rw [h.watermark, Option.mem_def.mp hk]
      simp [hne]
    rcases hput k.mtime k.path hw hle hlimit with ⟨hnone, hother⟩ | hthere | ⟨offset, hgrows⟩
    · constructor
      · intro hpath _
        have hfile : (p.resume s).file = k.path := by
          have hmarks := h.marks
          rw [Option.mem_def.mp hk] at hmarks
          exact hmarks.1
        exact absurd (hpath.trans hfile.symm) hother
      · intro _
        rw [Emitted, hnone]
        exact .nil _ _
    · exact ⟨h.upTo k hk hne f hthere hlimit, h.emitted k hk hne f hthere hlimit hle⟩
    · obtain ⟨hpath, htime, hup⟩ := h.growsOn hk hne hgrows hlimit
      exact ⟨fun _ _ => hup, fun hother => absurd ⟨hpath, htime⟩ hother⟩
  refine ⟨?_, ?_, h.marks, ?_, ?_⟩
  · have hold : ((s.files.filter (·.path ≠ f.path)).map DirectoryFile.path).Nodup :=
      h.paths.sublist (List.filter_sublist.map DirectoryFile.path)
    simp only [step, List.map_append, List.map_cons, List.map_nil]
    rw [List.nodup_append]
    refine ⟨hold, by simp, ?_⟩
    simp only [List.mem_map, List.mem_filter, decide_eq_true_eq, List.mem_cons, List.not_mem_nil,
      or_false]
    rintro path ⟨x, ⟨-, hx⟩, rfl⟩ path' rfl
    exact hx
  · intro x hx
    rcases hmem hx with ⟨hx, -⟩ | rfl
    · exact h.readsBack x hx
    · exact hback
  · intro k hk hne x hx hlimit hpath htime
    have hup : p.UpTo s x k.offset := by
      rcases hmem hx with ⟨hx, -⟩ | rfl
      · exact h.upTo k hk hne x hx hlimit hpath htime
      · refine (hcomes k hk hne hlimit ?_).1 hpath htime
        rw [DirectoryFile.fileTuple, hpath, htime]
    obtain ⟨hstarted, hle, hends, hlines, hwhole⟩ := hup
    exact ⟨hstarted, hle, hends, hlines, hwhole⟩
  · intro k hk hne x hx hlimit hle hother
    rcases hmem hx with ⟨hx, -⟩ | rfl
    · exact h.emitted k hk hne x hx hlimit hle hother
    · exact (hcomes k hk hne hlimit hle).2 hother

/-! ### Runs -/

section poll

variable {m : ℤ} {fails : String → Bool} {w : Option UtcTime × Option String} {protocol : String}

theorem mem_listing {x : RemoteFile} (h : x ∈ (p.adapter m).fetched s.checkpoint w (listing fails s)) :
    ∃ f ∈ s.files, x = f.listed fails := by
  have hmem := List.mem_of_mem_filter (List.mem_of_mem_take h)
  rw [RemoteAdapter.candidates, List.mem_insertionSort] at hmem
  obtain ⟨f, hf, hlisted⟩ := List.mem_map.mp hmem
  exact ⟨f, hf, hlisted.symm⟩

theorem readable_listed {f : DirectoryFile} (hlimit : p.withinLimit f)
    (hreads : fails f.path = false) : (p.adapter m).readable (f.listed fails) = true := by
  have hle : (f.content.length : ℤ) ≤ (p.adapter m).cfg.maxBytes := hlimit
  simp [RemoteAdapter.readable, DirectoryFile.listed, hreads, hle]

/-- The events of a file a run has read are those of the records from where it started. -/
theorem read_eq {f : DirectoryFile} {read : List Event}
    (hread : (p.adapter m).readFile s.checkpoint protocol (f.listed fails) = .ok (some read)) :
    ∃ start parsed, (p.adapter m).startOffset s.checkpoint (f.listed fails) f.content
        f.content.length = .ok start ∧
      parseRecordsWithOffsets p.rt p.parser f.content f.path start = .ok parsed ∧
      read = parsed.map fun record => ((p.adapter m).origin protocol (f.listed fails) f.content
        f.content.length record.2).attach record.1 := by
  unfold RemoteAdapter.readFile at hread
  by_cases hlarge : (p.adapter m).cfg.maxBytes < (f.listed fails).size
  · simp [hlarge] at hread
  rw [if_neg hlarge] at hread
  cases hfails : fails f.path with
  | true =>
    have herror : (f.listed fails).read = .osError := by simp [DirectoryFile.listed, hfails]
    simp [herror] at hread
  | false =>
    have hbytes : (f.listed fails).read = .bytes f.content f.content.length := by
      simp [DirectoryFile.listed, hfails]
    simp only [hbytes, RemoteAdapter.fileEvents] at hread
    cases hstart : (p.adapter m).startOffset s.checkpoint (f.listed fails) f.content
        f.content.length with
    | error e => simp [hstart, Except.bind, Except.map] at hread
    | ok start =>
      simp only [hstart, Except.bind] at hread
      cases hparse : parseRecordsWithOffsets p.rt p.parser f.content f.path start with
      | error e =>
        have hfail : parseRecordsWithOffsets (p.adapter m).rt (p.adapter m).cfg.parser f.content
            (f.listed fails).path start = .error e := hparse
        rw [hfail] at hread
        cases e <;> simp [RemoteAdapter.wrapParseError, Except.map] at hread
      | ok parsed =>
        have hok : parseRecordsWithOffsets (p.adapter m).rt (p.adapter m).cfg.parser f.content
            (f.listed fails).path start = .ok parsed := hparse
        rw [hok] at hread
        simp only [RemoteAdapter.wrapParseError, Except.map, Except.ok.injEq,
          Option.some.injEq] at hread
        exact ⟨start, parsed, rfl, hparse, hread.symm⟩

theorem forall₂_attach (parsed : List (Event × ℕ)) (origin : ℕ → RemoteFileMeta) {path : String}
    (hpath : ∀ stop, (origin stop).path = path) :
    List.Forall₂ (fun record event => ∃ m : RemoteFileMeta, m.path = path ∧ event = m.attach record)
      (parsed.map Prod.fst) (parsed.map fun record => (origin record.2).attach record.1) := by
  rw [List.forall₂_map_left_iff, List.forall₂_map_right_iff, List.forall₂_same]
  intro record _
  exact ⟨origin record.2, hpath record.2, rfl⟩

/-- A file that is read gives its records, together with what was emitted of it before: what is
before the mark came out earlier, what is after it comes now. -/
theorem Polled.emitted_of_read (h : p.Polled s mark) {f : DirectoryFile} (hf : f ∈ s.files)
    (hlimit : p.withinLimit f) {read events : List Event}
    (hread : (p.adapter m).readFile s.checkpoint protocol (f.listed fails) = .ok (some read))
    (hsub : read.Sublist events) : EmittedAs f.path (p.recordsOf f) (s.runs ++ [events]) := by
  obtain ⟨start, parsed, hstart, hparse, rfl⟩ := read_eq hread
  have hall := forall₂_attach parsed (fun stop => (p.adapter m).origin protocol (f.listed fails)
    f.content f.content.length stop) (fun _ => show _ = f.path from rfl)
  have hmarks : Marks (p.adapter m).rt.toTextRuntime s.checkpoint mark := h.marks
  rcases hmarks.startOffset_cases hstart with hzero | ⟨k, hk, hne, hpath, htime, hresume, hlines⟩
  · rw [recordsOf_parsed hparse (.inl hzero), ← List.nil_append (parsed.map Prod.fst)]
    exact (EmittedAs.nil f.path s.runs).append hsub hall
  · have hlines : p.parser.byLines = true := hlines
    have hup := h.upTo k hk hne f hf hlimit hpath htime
    subst hresume
    rw [recordsOf_lines hlines, lineRecords_append (hup.endsLine hlines),
      ← parsed_records hlines hparse]
    exact (hup.lines hlines).append hsub hall

/-- Whatever is to be read and not after a file a run reads is read as well: it could only be left
out as a tie, and a path names one file. -/
theorem mem_fetched_of_le (hpaths : (s.files.map DirectoryFile.path).Nodup) {f g : DirectoryFile}
    (hg : g ∈ s.files) (hf : f ∈ s.files)
    (hgread : g.listed fails ∈ (p.adapter m).fetched s.checkpoint w (listing fails s))
    (hskip : (p.adapter m).isSkipped s.checkpoint w (f.listed fails) = false)
    (hread : (p.adapter m).readable (f.listed fails) = true) (hle : f.fileTuple ≤ g.fileTuple) :
    f.listed fails ∈ (p.adapter m).fetched s.checkpoint w (listing fails s) := by
  unfold RemoteAdapter.fetched at hgread ⊢
  set rest := (RemoteAdapter.candidates (listing fails s)).filter fun x =>
    !(p.adapter m).isSkipped s.checkpoint w x && (p.adapter m).readable x with hrest
  have hfrest : f.listed fails ∈ rest := by
    rw [hrest, List.mem_filter, RemoteAdapter.candidates, List.mem_insertionSort]
    exact ⟨List.mem_map_of_mem hf, by simp [hskip, hread]⟩
  have hsorted : rest.Pairwise fun x y => x.fileTuple ≤ y.fileTuple :=
    (List.pairwise_insertionSort _ _).sublist List.filter_sublist
  rw [← List.take_append_drop (p.adapter m).cfg.maxFiles rest] at hfrest hsorted
  rcases List.mem_append.mp hfrest with hfrest | hfrest
  · exact hfrest
  · have hge : g.fileTuple ≤ f.fileTuple :=
      (List.pairwise_append.mp hsorted).2.2 _ hgread _ hfrest
    have hpath : f.path = g.path := congrArg (fun t => (ofLex t).2) (le_antisymm hle hge)
    rwa [List.inj_on_of_nodup_map hpaths hf hg hpath]

/-- The file the mark is inside comes first: the first file to be read is at or before the mark. -/
theorem Polled.mem_fetched_of_inside (h : p.Polled s mark) {f : DirectoryFile} (hf : f ∈ s.files)
    {k : Mark} (hk : k ∈ mark) (hne : k.path ≠ "") (hw : p.watermark s = .ok w)
    (hinside : k.Inside f.path f.mtime f.content.length)
    (hread : (p.adapter m).readable (f.listed fails) = true) :
    f.listed fails ∈ (p.adapter m).fetched s.checkpoint w (listing fails s) := by
  have hmarks : Marks (p.adapter m).rt.toTextRuntime s.checkpoint mark := h.marks
  have hwk : w = (some k.mtime, some k.path) := by
    rw [h.watermark, Option.mem_def.mp hk] at hw
    simpa [hne] using (Except.ok.inj hw).symm
  have hskip : (p.adapter m).isSkipped s.checkpoint w (f.listed fails) = false := by
    by_contra hskipped
    rw [Bool.not_eq_false, hmarks.isSkipped_iff rfl] at hskipped
    exact hskipped.2 k hk hinside
  unfold RemoteAdapter.fetched
  set rest := (RemoteAdapter.candidates (listing fails s)).filter fun x =>
    !(p.adapter m).isSkipped s.checkpoint w x && (p.adapter m).readable x with hrest
  have hfrest : f.listed fails ∈ rest := by
    rw [hrest, List.mem_filter, RemoteAdapter.candidates, List.mem_insertionSort]
    exact ⟨List.mem_map_of_mem hf, by simp [hskip, hread]⟩
  have hsorted : rest.Pairwise fun x y => x.fileTuple ≤ y.fileTuple :=
    (List.pairwise_insertionSort _ _).sublist List.filter_sublist
  have hpos : 0 < (p.adapter m).cfg.maxFiles := by
    unfold RemoteStream.maxFiles
    omega
  cases hcons : rest with
  | nil =>
    rw [hcons] at hfrest
    cases hfrest
  | cons x xs =>
    have hx : x ∈ rest := by simp [hcons]
    have hle : x.fileTuple ≤ (f.listed fails).fileTuple := by
      rw [hcons] at hfrest hsorted
      rcases List.mem_cons.mp hfrest with heq | htail
      · rw [heq]
      · exact List.rel_of_pairwise_cons hsorted htail
    rw [hrest, List.mem_filter, RemoteAdapter.candidates, List.mem_insertionSort] at hx
    obtain ⟨hlisted, hkept⟩ := hx
    obtain ⟨g, hg, rfl⟩ := List.mem_map.mp hlisted
    have hgskip : (p.adapter m).isSkipped s.checkpoint w (g.listed fails) = false := by
      rw [Bool.and_eq_true, Bool.not_eq_true'] at hkept
      exact hkept.1
    have hgpath : g.path = f.path := by
      by_contra hother
      have hskipped : (p.adapter m).isSkipped s.checkpoint w (g.listed fails) = true := by
        rw [hmarks.isSkipped_iff rfl]
        refine ⟨shouldSkip_listed.mpr ⟨k.mtime, k.path, hwk, ?_⟩, ?_⟩
        · rw [hinside.1, hinside.2.1]
          exact hle
        · intro k' hk' hin
          rw [Option.mem_def.mp hk, Option.mem_def, Option.some.injEq] at hk'
          subst hk'
          exact hother (hin.1.symm.trans hinside.1)
      rw [hgskip] at hskipped
      cases hskipped
    rw [List.inj_on_of_nodup_map h.paths hg hf hgpath]
    obtain ⟨n, hn⟩ : ∃ n, (p.adapter m).cfg.maxFiles = n + 1 := ⟨_, (Nat.succ_pred hpos.ne').symm⟩
    rw [hn, List.take_succ_cons]
    exact List.mem_cons_self

/-- What a run emits of the files it has read. -/
theorem Polled.emitted_of_mem (h : p.Polled s mark) {f : DirectoryFile} (hf : f ∈ s.files)
    (hlimit : p.withinLimit f) {events : List Event}
    (hread : ∀ x ∈ (p.adapter m).fetched s.checkpoint w (listing fails s),
      ∃ read, (p.adapter m).readFile s.checkpoint protocol x = .ok (some read))
    (hevents : events = ((p.adapter m).fetched s.checkpoint w (listing fails s)).flatMap
      ((p.adapter m).freshEvents s.checkpoint protocol))
    (hmem : f.listed fails ∈ (p.adapter m).fetched s.checkpoint w (listing fails s)) :
    EmittedAs f.path (p.recordsOf f) (s.runs ++ [events]) := by
  obtain ⟨read, hok⟩ := hread _ hmem
  have hfresh : (p.adapter m).freshEvents s.checkpoint protocol (f.listed fails) = read := by
    rw [← RemoteAdapter.yields_readFile (RemoteAdapter.readable_of_mem_fetched hmem)]
    simp [LimitedScan.yields, hok]
  refine h.emitted_of_read hf hlimit hok ?_
  rw [hevents, ← hfresh]
  exact List.sublist_flatten_of_mem (List.mem_map_of_mem hmem)

/-- A file a run skips has been emitted. -/
theorem Polled.emitted_of_skipped (h : p.Polled s mark) {f : DirectoryFile} (hf : f ∈ s.files)
    (hlimit : p.withinLimit f) (hw : p.watermark s = .ok w)
    (hskip : (p.adapter m).isSkipped s.checkpoint w (f.listed fails) = true) : p.Emitted s f := by
  have hmarks : Marks (p.adapter m).rt.toTextRuntime s.checkpoint mark := h.marks
  obtain ⟨hbefore, hnot⟩ := (hmarks.isSkipped_iff rfl w _).mp hskip
  obtain ⟨lm, path, rfl, hle⟩ := shouldSkip_listed.mp hbefore
  obtain ⟨k, hk, hne, rfl, rfl⟩ := h.mark_of_watermark hw
  by_cases hsame : f.path = k.path ∧ f.mtime = k.mtime
  · have hup := h.upTo k hk hne f hf hlimit hsame.1 hsame.2
    apply hup.emitted
    by_contra hend
    push Not at hend
    have hpos : 0 < k.offset := hup.started.resolve_right (by omega)
    have hinside : (k.offset : ℤ) < f.content.length := by exact_mod_cast hend
    exact hnot k hk ⟨hsame.1.symm, hsame.2.symm, hpos, hinside⟩
  · exact h.emitted k hk hne f hf hlimit hle hsame

/-- A run that emits nothing has still come to the file the mark is inside. -/
theorem Polled.emitted_at_mark (h : p.Polled s mark) {f : DirectoryFile} (hf : f ∈ s.files)
    (hlimit : p.withinLimit f) {events : List Event} (hvalid : (p.adapter 0).validate = .ok protocol)
    (hw : p.watermark s = .ok w) (hfair : p.Unhindered s (.poll m fails))
    (hread : ∀ x ∈ (p.adapter m).fetched s.checkpoint w (listing fails s),
      ∃ read, (p.adapter m).readFile s.checkpoint protocol x = .ok (some read))
    (hevents : events = ((p.adapter m).fetched s.checkpoint w (listing fails s)).flatMap
      ((p.adapter m).freshEvents s.checkpoint protocol))
    (hbefore : (f.listed fails).shouldSkip w = true) :
    EmittedAs f.path (p.recordsOf f) (s.runs ++ [events]) := by
  cases hskip : (p.adapter m).isSkipped s.checkpoint w (f.listed fails) with
  | true => exact EmittedAs.later (h.emitted_of_skipped hf hlimit hw hskip) events
  | false =>
    have hmarks : Marks (p.adapter m).rt.toTextRuntime s.checkpoint mark := h.marks
    have hnot := (hmarks.isSkipped_iff rfl w (f.listed fails)).not.mp (by simp [hskip])
    push Not at hnot
    obtain ⟨k, hk, hinside⟩ := hnot hbefore
    obtain ⟨lm, path, rfl, -⟩ := shouldSkip_listed.mp hbefore
    obtain ⟨k', hk', hne, -, -⟩ := h.mark_of_watermark hw
    rw [Option.mem_def.mp hk, Option.mem_def, Option.some.injEq] at hk'
    subst hk'
    have hreads : fails f.path = false := by
      by_contra hfails
      rw [Bool.not_eq_false] at hfails
      have hpast := (hfair protocol _ hvalid hw f hf hlimit hfails hskip).1
      rw [hbefore] at hpast
      cases hpast
    exact h.emitted_of_mem hf hlimit hread hevents
      (h.mem_fetched_of_inside hf hk hne hw hinside (readable_listed hlimit hreads))

/-- The checkpoint of a run is the mark of the file its last event came from. -/
theorem Polled.marks_stored (h : p.Polled s mark) {g : DirectoryFile} (hg : g ∈ s.files)
    (front : List Event) {o : RemoteFileMeta} (hpath : o.path = g.path) (htime : o.mtime = g.mtime)
    {stop : ℕ} (hstop : o.offset = stop) (record : Event) :
    Marks p.rt.toTextRuntime (storedCheckpoint p.cursorValue p.transform (front ++ [o.attach record]))
      (some ⟨g.path, g.mtime, stop⟩) := by
  have hagrees := (checkpoint_agrees_iff p.rt.toTextRuntime p.cursorValue p.transform front
    (.remoteFile o) record).mpr (h.readsBack g hg o record hpath htime)
  obtain ⟨hfile, hmtime, hoffset⟩ := hagrees
  rw [hpath] at hfile
  rw [htime] at hmtime
  rw [hstop] at hoffset
  exact ⟨hfile, hmtime, hoffset⟩

/-- A run that emits events has emitted every file up to that of the last event: what it skipped
was emitted before. -/
theorem Polled.advance (h : p.Polled s mark) {events : List Event}
    (hvalid : (p.adapter 0).validate = .ok protocol) (hw : p.watermark s = .ok w)
    (hfair : p.Unhindered s (.poll m fails))
    (hread : ∀ x ∈ (p.adapter m).fetched s.checkpoint w (listing fails s),
      ∃ read, (p.adapter m).readFile s.checkpoint protocol x = .ok (some read))
    (hevents : events = ((p.adapter m).fetched s.checkpoint w (listing fails s)).flatMap
      ((p.adapter m).freshEvents s.checkpoint protocol)) (hne : events ≠ []) :
    ∃ k : Mark, p.Polled { s with
        runs := s.runs ++ [events]
        checkpoint := storedCheckpoint p.cursorValue p.transform events } (some k) ∧
      ∀ f ∈ s.files, p.withinLimit f → f.fileTuple ≤ toLex (k.mtime, k.path) →
        EmittedAs f.path (p.recordsOf f) (s.runs ++ [events]) := by
  obtain ⟨front, last, hsplit⟩ := (List.eq_nil_or_concat events).resolve_left hne
  rw [List.concat_eq_append] at hsplit
  have hlast : last ∈ ((p.adapter m).fetched s.checkpoint w (listing fails s)).flatMap
      ((p.adapter m).freshEvents s.checkpoint protocol) := by
    rw [← hevents, hsplit]
    simp
  obtain ⟨x, hx, hlastx⟩ := List.mem_flatMap.mp hlast
  obtain ⟨g, hg, rfl⟩ := mem_listing hx
  obtain ⟨read, hok⟩ := hread _ hx
  have hfresh : (p.adapter m).freshEvents s.checkpoint protocol (g.listed fails) = read := by
    rw [← RemoteAdapter.yields_readFile (RemoteAdapter.readable_of_mem_fetched hx)]
    simp [LimitedScan.yields, hok]
  rw [hfresh] at hlastx
  obtain ⟨start, parsed, -, hparse, hparsed⟩ := read_eq hok
  rw [hparsed] at hlastx
  obtain ⟨⟨record, stop⟩, hrecord, rfl⟩ := List.mem_map.mp hlastx
  obtain ⟨hstopLe, hstopEnds⟩ := parsed_stop hparse hrecord
  have hall : ∀ f ∈ s.files, p.withinLimit f → f.fileTuple ≤ g.fileTuple →
      EmittedAs f.path (p.recordsOf f) (s.runs ++ [events]) := by
    intro f hf hlimit hle
    cases hskip : (p.adapter m).isSkipped s.checkpoint w (f.listed fails) with
    | true => exact EmittedAs.later (h.emitted_of_skipped hf hlimit hw hskip) events
    | false =>
      have hreads : fails f.path = false := by
        by_contra hfails
        rw [Bool.not_eq_false] at hfails
        have hlater := (hfair protocol w hvalid hw f hf hlimit hfails hskip).2 _ hx (by
          rw [hfresh, hparsed]
          exact List.ne_nil_of_mem hlastx)
        exact absurd hle (not_le.mpr hlater)
      exact h.emitted_of_mem hf hlimit hread hevents
        (mem_fetched_of_le h.paths hg hf hx hskip (readable_listed hlimit hreads) hle)
  refine ⟨⟨g.path, g.mtime, stop⟩, ⟨h.paths, h.readsBack, ?_, ?_, ?_⟩, hall⟩
  · rw [hsplit]
    exact h.marks_stored hg front rfl rfl rfl record
  · rintro k hk - f hf hlimit hpath htime
    rw [Option.mem_def, Option.some.injEq] at hk
    subst hk
    have hfg : f = g := List.inj_on_of_nodup_map h.paths hf hg hpath
    subst hfg
    have hemitted := hall f hf hlimit le_rfl
    refine ⟨?_, hstopLe, fun _ => hstopEnds, ?_, fun _ _ => hemitted⟩
    · rcases hstopEnds with hend | ⟨hpos, -⟩
      · exact .inr hend
      · exact .inl hpos
    · intro hlines
      rw [recordsOf_lines hlines, lineRecords_append hstopEnds] at hemitted
      exact hemitted.left
  · rintro k hk - f hf hlimit hle -
    rw [Option.mem_def, Option.some.injEq] at hk
    subst hk
    exact hall f hf hlimit hle

/-- A successful run leaves nothing out. -/
theorem Polled.fetched (h : p.Polled s mark) {events : List Event}
    (hfair : p.Unhindered s (.poll m fails))
    (hfetch : (p.adapter m).fetch s.checkpoint (.ok (listing fails s)) = .ok events) :
    (∃ mark', p.Polled (p.step s (.poll m fails)) mark') ∧
      p.NeverSkips (p.step s (.poll m fails)) := by
  have hmarks : Marks (p.adapter m).rt.toTextRuntime s.checkpoint mark := h.marks
  have hw := h.watermark
  set w : Option UtcTime × Option String := (mark.map (·.mtime),
    mark.bind fun k => if k.path = "" then none else some k.path)
  obtain ⟨protocol, hvalid⟩ : ∃ protocol, (p.adapter 0).validate = .ok protocol := by
    have hsame : (p.adapter m).validate = (p.adapter 0).validate := rfl
    cases hvalid : (p.adapter 0).validate with
    | ok protocol => exact ⟨protocol, rfl⟩
    | error e => simp [RemoteAdapter.fetch, hsame, hvalid, Except.bind] at hfetch
  obtain ⟨hread, hevents⟩ := (RemoteAdapter.fetch_eq_ok_iff (a := p.adapter m) hvalid hw
    hmarks.resumeOffset events).mp hfetch
  simp only [step, hfetch]
  by_cases hne : events = []
  · have hpolled : p.Polled { s with runs := s.runs ++ [events], checkpoint := s.checkpoint } mark := by
      refine ⟨h.paths, h.readsBack, h.marks, ?_, ?_⟩
      · intro k hk hkne f hf hlimit hpath htime
        have hup := h.upTo k hk hkne f hf hlimit hpath htime
        exact ⟨hup.started, hup.le, hup.endsLine, fun hlines => (hup.lines hlines).later events,
          fun hwhole hend => EmittedAs.later (hup.whole hwhole hend) events⟩
      · intro k hk hkne f hf hlimit hle hother
        exact EmittedAs.later (h.emitted k hk hkne f hf hlimit hle hother) events
    rw [if_pos hne]
    refine ⟨⟨mark, hpolled⟩, ?_⟩
    intro lm path hwm f hf hlimit hle
    have hwm : p.watermark s = .ok (some lm, some path) := hwm
    refine h.emitted_at_mark hf hlimit hvalid hw hfair hread hevents ?_
    rw [hw, Except.ok.injEq] at hwm
    exact shouldSkip_listed.mpr ⟨lm, path, hwm, hle⟩
  · rw [if_neg hne]
    obtain ⟨k, hpolled, hall⟩ := h.advance hvalid hw hfair hread hevents hne
    refine ⟨⟨some k, hpolled⟩, ?_⟩
    intro lm path hwm f hf hlimit hle
    obtain ⟨k', hk', -, rfl, rfl⟩ := hpolled.mark_of_watermark hwm
    rw [Option.mem_def, Option.some.injEq] at hk'
    subst hk'
    exact hall f hf hlimit hle

end poll

theorem Polled.step (h : p.Polled s mark) {action : DirectoryAction}
    (hfair : p.Unhindered s action) :
    (∃ mark', p.Polled (p.step s action) mark') ∧ p.RunsSkipNothing s action := by
  cases action with
  | put f => exact ⟨⟨mark, h.put hfair⟩, trivial⟩
  | remove path => exact ⟨⟨mark, h.remove path⟩, trivial⟩
  | poll m fails =>
    constructor
    · cases hfetch : (p.adapter m).fetch s.checkpoint (.ok (listing fails s)) with
      | error e =>
        refine ⟨mark, ?_⟩
        simp only [RemotePoller.step, hfetch]
        exact h
      | ok events => exact (h.fetched hfair hfetch).1
    · intro events hfetch
      exact (h.fetched hfair hfetch).2

end RemotePoller

/-- In every run of changes of the directory and polls, with any number of files a poll and any
read that fails, whose steps are not hindered, no poll leaves a file behind the watermark out. -/
theorem remote_neverSkips (p : RemotePoller) (actions : List DirectoryAction)
    (h : Steps.Along p.step p.Unhindered {} actions) :
    Steps.Along p.step p.RunsSkipNothing {} actions := by
  have hinit : ∃ mark, p.Polled {} mark := by
    refine ⟨none, by simp, by simp, rfl, ?_, ?_⟩
    · intro k hk
      cases hk
    · intro k hk
      cases hk
  have hstep : ∀ s action, (∃ mark, p.Polled s mark) → p.Unhindered s action →
      ∃ mark, p.Polled (p.step s action) mark := by
    rintro s action ⟨mark, hpolled⟩ hfair
    exact (hpolled.step hfair).1
  have hskip : ∀ s action, (∃ mark, p.Polled s mark) → p.Unhindered s action →
      p.RunsSkipNothing s action := by
    rintro s action ⟨mark, hpolled⟩ hfair
    exact (hpolled.step hfair).2
  exact Steps.along_of_invariant hstep hskip hinit h

/-- The metadata of a file reads back where the route changes nothing. -/
theorem RemotePoller.readsBack_id {p : RemotePoller} (h : p.transform = id) {f : DirectoryFile}
    (hpath : f.path ≠ "") : p.ReadsBack f := by
  intro m record hm htime
  have hseen : ∀ {k v}, Dict.get? k (m.attach record) = some v →
      seenOrNull (m.attach record) (m.attach record) k = v := by
    intro k v hv
    simp [seenOrNull, seen, hv]
  have hpathSeen := hseen (k := "remote_path") (v := .str m.path) (by
    cases hhash : m.fileHash <;> simp [RemoteFileMeta.attach, hhash])
  have htimeSeen := hseen (k := "remote_mtime") (v := .str m.mtime.isoText) (by
    cases hhash : m.fileHash <;> simp [RemoteFileMeta.attach, hhash])
  have hoffsetSeen := hseen (k := "gdc_remote_offset") (v := .int m.offset) (by
    cases hhash : m.fileHash <;> simp [RemoteFileMeta.attach, hhash])
  have htruthy : truthy (.str m.path) = true := by simpa [truthy, hm] using hpath
  rw [h, id_eq]
  refine ⟨?_, ?_, hoffsetSeen⟩
  · simp [SourceOrigin.attach, picked, hpathSeen, orElse, htruthy, TextRuntime.str,
      Dedup.scalarText]
  · simp [SourceOrigin.attach, picked, htimeSeen, orElse, truthy_isoText]

/-- Emitted records have left events of their file. -/
theorem EmittedAs.exists_event {path : String} {record : Event} {records : List Event}
    {runs : List (List Event)} (h : EmittedAs path (record :: records) runs) :
    ∃ e ∈ runs.flatten, getOrNull "remote_path" e = .str path := by
  obtain ⟨events, hsub, hall⟩ := h
  cases hall with
  | @cons _ e _ events hfirst _ =>
    obtain ⟨m, rfl, rfl⟩ := hfirst
    refine ⟨m.attach record, hsub.subset List.mem_cons_self, ?_⟩
    cases hhash : m.fileHash <;> simp [RemoteFileMeta.attach, hhash, getOrNull]

def inboxPoller : RemotePoller where
  rt := asciiRuntime
  src := { host := "files.example" }
  remoteDirectory := "/in"

/-- A file with so many records. -/
def inboxFile (path : String) (records : ℕ) : DirectoryFile where
  path := path
  mtime := auditTime
  content := (List.replicate records (asciiBytes "\x7b\"id\": 1\x7d\n")).flatten

/-- The file grows within the second of its time, and the second run reads on in it. -/
theorem inbox_readsOn : Steps.Along inboxPoller.step inboxPoller.RunsSkipNothing {}
    [.put (inboxFile "/in/a.ndjson" 1), .poll 1 fun _ => false,
      .put (inboxFile "/in/a.ndjson" 2), .poll 1 fun _ => false] := by
  refine remote_neverSkips inboxPoller _ ⟨⟨?_, ?_⟩, ?_, ⟨?_, ?_⟩, ?_, trivial⟩
  · exact RemotePoller.readsBack_id rfl (by decide)
  · intro lm path hw
    cases hw
  · intro protocol watermark _ _ f _ _ hfails
    cases hfails
  · exact RemotePoller.readsBack_id rfl (by decide)
  · intro lm path _ _ _
    refine .inr (.inr ⟨10, ?_, ?_, ?_, ?_, ⟨inboxFile "/in/a.ndjson" 1, ?_, rfl, rfl, ?_⟩, ?_⟩)
    · decide +kernel
    · decide +kernel
    · decide +kernel
    · decide +kernel
    · decide +kernel
    · exact ⟨asciiBytes "\x7b\"id\": 1\x7d\n", by rfl⟩
    · intro _
      exact .inr ⟨by decide, .inl (by rfl)⟩
  · intro protocol watermark _ _ f _ _ hfails
    cases hfails

/-- The directory of two files. -/
def twoFiles : List DirectoryAction :=
  [.put (inboxFile "/in/a.ndjson" 1), .put (inboxFile "/in/b.ndjson" 1)]

/-- The first file cannot be read, and the second moves the watermark past it. -/
theorem inbox_passedOver : ¬ Steps.Along inboxPoller.step inboxPoller.RunsSkipNothing {}
    (twoFiles ++ [.poll 10 fun path => path = "/in/a.ndjson"]) := by
  intro h
  have hlast := h.last
  set s := Steps.run inboxPoller.step {} twoFiles with hs
  obtain ⟨events, hfetch⟩ : ∃ events, (inboxPoller.adapter 10).fetch s.checkpoint
      (.ok (RemotePoller.listing (fun path => path = "/in/a.ndjson") s)) = .ok events := by
    have hok : ((inboxPoller.adapter 10).fetch s.checkpoint (.ok (RemotePoller.listing
        (fun path => path = "/in/a.ndjson") s))).toBool = true := by
      rw [hs]
      decide +kernel
    cases hfetch : (inboxPoller.adapter 10).fetch s.checkpoint (.ok (RemotePoller.listing
        (fun path => path = "/in/a.ndjson") s)) with
    | error e =>
      rw [hfetch] at hok
      cases hok
    | ok events => exact ⟨events, rfl⟩
  have hemitted : EmittedAs "/in/a.ndjson" [[("id", .int 1)]] (inboxPoller.step s
      (.poll 10 fun path => path = "/in/a.ndjson")).runs := by
    have hskips := hlast events hfetch auditTime "/in/b.ndjson" (by rw [hs]; decide +kernel)
      (inboxFile "/in/a.ndjson" 1) (by rw [hs]; decide +kernel)
      (show (10 : ℤ) ≤ 5242880 by decide) (by decide +kernel)
    have hrecords : inboxPoller.recordsOf (inboxFile "/in/a.ndjson" 1) = [[("id", .int 1)]] := by
      decide +kernel
    rw [RemotePoller.Emitted, hrecords] at hskips
    exact hskips
  obtain ⟨e, he, hpath⟩ := hemitted.exists_event
  have hnone : ∀ e ∈ (inboxPoller.step s (.poll 10 fun path =>
      path = "/in/a.ndjson")).runs.flatten, getOrNull "remote_path" e ≠ .str "/in/a.ndjson" := by
    rw [hs]
    decide +kernel
  exact hnone e he hpath

end Sources
