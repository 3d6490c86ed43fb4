import DataRelay.Sources.RecordParsers

/-! Reading a file on from the end of a line. The records of the whole file are those of the part
before the offset followed by those the resumed read finds. -/
namespace Sources
open Delivery Runner

/-- The bytes up to a line break and those after it are split separately. -/
theorem byteLines_append_break (line xs ys : List UInt8) (offset : ℕ) :
    byteLines line offset (xs ++ 10 :: ys) =
      byteLines line offset (xs ++ [10]) ++ byteLines [] (offset + xs.length + 1) ys := by
  induction xs generalizing line offset with
  | nil => by_cases hline : line = [] <;> simp [byteLines, hline]
  | cons b xs ih =>
    have hlength : offset + (b :: xs).length + 1 = offset + 1 + xs.length + 1 := by
      simp only [List.length_cons]
      omega
    rw [hlength]
    simp only [List.cons_append, byteLines]
    split_ifs
    · exact ih [] (offset + 1)
    · exact ih [b] (offset + 1)
    · rw [ih [] (offset + 1), List.cons_append]
    · exact ih (line ++ [b]) (offset + 1)

/-- A line break at the end changes where the last line ends, not what it is. -/
theorem byteLines_break_chunks (line xs : List UInt8) (offset : ℕ) :
    (byteLines line offset (xs ++ [10])).map Prod.fst = (byteLines line offset xs).map Prod.fst := by
  induction xs generalizing line offset with
  | nil => by_cases hline : line = [] <;> simp [byteLines, hline]
  | cons b xs ih =>
    simp only [List.cons_append, byteLines]
    split_ifs
    · exact ih [] (offset + 1)
    · exact ih [b] (offset + 1)
    · rw [List.map_cons, List.map_cons, ih [] (offset + 1)]
    · exact ih (line ++ [b]) (offset + 1)

/-- The offset is where a line of the bytes ends. -/
def EndsLine (body : List UInt8) (offset : ℕ) : Prop :=
  body.length ≤ offset ∨ 0 < offset ∧ (body[offset - 1]? = some 10 ∨ body[offset]? = some 10)

/-- A line ends behind its line break or with the bytes. -/
theorem byteLines_stop {before line rest : List UInt8} {chunk : List UInt8} {stop : ℕ}
    (h : (chunk, stop) ∈ byteLines line before.length rest) (hline : line ≠ [] → 0 < before.length) :
    0 < stop ∧ stop ≤ (before ++ rest).length ∧ EndsLine (before ++ rest) stop := by
  induction rest generalizing before line with
  | nil =>
    by_cases hnil : line = []
    · simp [byteLines, hnil] at h
    · simp only [byteLines, hnil, ↓reduceIte, List.mem_singleton, Prod.mk.injEq] at h
      rw [List.append_nil, h.2]
      exact ⟨hline hnil, le_rfl, .inl le_rfl⟩
  | cons b rest ih =>
    have hnext : before ++ b :: rest = (before ++ [b]) ++ rest := by simp
    have hlength : before.length + 1 = (before ++ [b]).length := by simp
    have hpos : 0 < (before ++ [b]).length := by simp
    simp only [byteLines, hlength] at h
    rw [hnext]
    split_ifs at h with hnil hbreak hbreak
    · exact ih h (fun hne => absurd rfl hne)
    · exact ih h (fun _ => hpos)
    · rcases List.mem_cons.mp h with hhead | htail
      · simp only [Prod.mk.injEq] at hhead
        rw [hhead.2]
        refine ⟨hpos, by simp, .inr ⟨hpos, .inl ?_⟩⟩
        simp [hbreak]
      · exact ih htail (fun hne => absurd rfl hne)
    · exact ih h (fun _ => hpos)

theorem linesFrom_zero (body : List UInt8) : linesFrom body 0 = byteLines [] 0 body := by
  simp [linesFrom, alignLineStart]

theorem alignLineStart_le (body : List UInt8) (start : ℕ) :
    alignLineStart body start ≤ body.length := by
  unfold alignLineStart
  split_ifs with hzero hlong hbreak
  · exact Nat.zero_le _
  · exact le_rfl
  · omega
  · simp only
    split_ifs with htail
    · exact le_rfl
    · have hpos : 0 < ((body.drop start).dropWhile (· ≠ 10)).length := List.length_pos_iff.mpr htail
      have hle : ((body.drop start).dropWhile (· ≠ 10)).length ≤ body.length := by
        calc ((body.drop start).dropWhile (· ≠ 10)).length ≤ (body.drop start).length :=
              (List.dropWhile_sublist _).length_le
          _ ≤ body.length := by simp
      omega

theorem linesFrom_stop {body chunk : List UInt8} {start stop : ℕ}
    (h : (chunk, stop) ∈ linesFrom body start) :
    0 < stop ∧ stop ≤ body.length ∧ EndsLine body stop := by
  have hlength : (body.take (alignLineStart body start)).length = alignLineStart body start := by
    simpa using alignLineStart_le body start
  unfold linesFrom at h
  rw [← hlength] at h
  have hstop := byteLines_stop h (by simp)
  rwa [hlength, List.take_append_drop] at hstop

/-- Reading on from the end of a line finds the lines of the rest. -/
theorem linesFrom_append {body : List UInt8} {offset : ℕ} (h : EndsLine body offset) :
    (linesFrom body 0).map Prod.fst = (linesFrom (body.take offset) 0).map Prod.fst ++
      (linesFrom body offset).map Prod.fst := by
  rw [linesFrom_zero, linesFrom_zero]
  by_cases hlong : body.length ≤ offset
  · have hstart : alignLineStart body offset = body.length := by
      unfold alignLineStart
      split_ifs with hzero
      · omega
      · rfl
    simp [linesFrom, hstart, List.take_of_length_le hlong, byteLines]
  · obtain ⟨hpos, hbreak⟩ := h.resolve_left hlong
    have hne : offset ≠ 0 := by omega
    by_cases hbefore : body[offset - 1]? = some 10
    · have hstart : alignLineStart body offset = offset := by
        simp [alignLineStart, hne, hlong, hbefore]
      obtain ⟨n, rfl⟩ : ∃ n, offset = n + 1 := ⟨offset - 1, by omega⟩
      rw [Nat.add_sub_cancel] at hbefore
      have hsplit : body = body.take n ++ 10 :: body.drop (n + 1) := by
        obtain ⟨hn, hget⟩ := List.getElem?_eq_some_iff.mp hbefore
        rw [← hget, List.cons_getElem_drop_succ, List.take_append_drop]
      have htake : body.take (n + 1) = body.take n ++ [10] := by
        rw [List.take_add_one, hbefore]
        rfl
      have hn : (body.take n).length = n := by
        rw [List.length_take]
        omega
      calc (byteLines [] 0 body).map Prod.fst
          = (byteLines [] 0 (body.take n ++ 10 :: body.drop (n + 1))).map Prod.fst := by rw [← hsplit]
        _ = (byteLines [] 0 (body.take (n + 1))).map Prod.fst ++
              (linesFrom body (n + 1)).map Prod.fst := by
            rw [byteLines_append_break, List.map_append, ← htake, hn, Nat.zero_add, linesFrom, hstart]
    · have hat : body[offset]? = some 10 := hbreak.resolve_left hbefore
      have hdrop : body.drop offset = 10 :: body.drop (offset + 1) := by
        obtain ⟨hn, hget⟩ := List.getElem?_eq_some_iff.mp hat
        rw [← hget, List.cons_getElem_drop_succ]
      have hlength : (body.take offset).length = offset := by
        rw [List.length_take]
        omega
      have hstart : alignLineStart body offset = offset + 1 := by
        have hdropped : (body.drop offset).dropWhile (· ≠ 10) = body.drop offset := by
          rw [hdrop]
          simp
        simp only [alignLineStart, hne, hlong, hbefore, ↓reduceIte, hdropped]
        simp only [hdrop, reduceCtorEq, ↓reduceIte, List.length_cons, List.length_drop]
        omega
      calc (byteLines [] 0 body).map Prod.fst
          = (byteLines [] 0 (body.take offset ++ 10 :: body.drop (offset + 1))).map Prod.fst := by
            rw [← hdrop, List.take_append_drop]
        _ = (byteLines [] 0 (body.take offset)).map Prod.fst ++
              (linesFrom body offset).map Prod.fst := by
            rw [byteLines_append_break, List.map_append, byteLines_break_chunks, hlength,
              Nat.zero_add, linesFrom, hstart]

/-! ### Records of lines -/

section records

variable (rt : FileRuntime) (cfg : ParserConfig)

/-- The formats that are read on from an offset. -/
def ParserConfig.byLines (cfg : ParserConfig) : Bool :=
  normalizeParserType cfg.parserType = .ndjson ∨ normalizeParserType cfg.parserType = .lineText

/-- The record of a line, where the line does not make the parser fail. -/
def lineRecord (chunk : List UInt8) : Option Event :=
  (rt.decode cfg.encoding chunk).bind fun text =>
    if PyText.strip text = "" then none
    else if normalizeParserType cfg.parserType = .lineText then
      some [(cfg.lineEventField, .str (PyText.strip text))]
    else
      match rt.loads (PyText.strip text) with
      | some (.obj members) => some members
      | _ => none

def lineRecords (body : List UInt8) (start : ℕ) : List Event :=
  ((linesFrom body start).map Prod.fst).filterMap (lineRecord rt cfg)

variable {rt cfg}

theorem ndjsonLineEvents_ok (htype : normalizeParserType cfg.parserType = .ndjson) {subject : String}
    {lineNo : ℕ} {lines : List (List UInt8 × ℕ)} {records : List (Event × ℕ)}
    (h : ndjsonLineEvents rt cfg subject lineNo lines = .ok records) :
    records = lines.filterMap fun l => (lineRecord rt cfg l.1).map (·, l.2) := by
  induction lines generalizing lineNo records with
  | nil =>
    simp only [ndjsonLineEvents, Except.ok.injEq] at h
    rw [← h]
    rfl
  | cons l lines ih =>
    obtain ⟨chunk, stop⟩ := l
    have htext : normalizeParserType cfg.parserType ≠ .lineText := by
      rw [htype]
      decide
    simp only [ndjsonLineEvents] at h
    cases hdecode : rt.decode cfg.encoding chunk with
    | none => simp [hdecode] at h
    | some text =>
      simp only [hdecode] at h
      by_cases hblank : PyText.strip text = ""
      · rw [if_pos hblank] at h
        rw [ih h, List.filterMap_cons_none]
        simp [lineRecord, hdecode, hblank]
      · rw [if_neg hblank] at h
        cases hline : ndjsonLine rt cfg.lenientNdjson subject lineNo (PyText.strip text) with
        | error e => simp [hline, Except.bind] at h
        | ok record =>
          cases hrest : ndjsonLineEvents rt cfg subject (lineNo + 1) lines with
          | error e => simp [hline, hrest, Except.bind, Except.map] at h
          | ok rest =>
            simp only [hline, hrest, Except.bind, Except.map, Except.ok.injEq] at h
            have hrecord : lineRecord rt cfg chunk = record := by
              simp only [lineRecord, hdecode, Option.bind_some, hblank, htext, ↓reduceIte]
              unfold ndjsonLine at hline
              split at hline
              · next members hloads => simpa [hloads] using hline
              · next v hloads hne =>
                split_ifs at hline
                cases v <;> simp_all
              · next hloads =>
                split_ifs at hline
                simpa [hloads] using hline
            rw [← h, ih hrest, List.filterMap_cons, hrecord]
            cases record <;> rfl

theorem lineTextEvents_ok (htype : normalizeParserType cfg.parserType = .lineText)
    {lines : List (List UInt8 × ℕ)} {records : List (Event × ℕ)}
    (h : lineTextEvents rt cfg lines = .ok records) :
    records = lines.filterMap fun l => (lineRecord rt cfg l.1).map (·, l.2) := by
  induction lines generalizing records with
  | nil =>
    simp only [lineTextEvents, Except.ok.injEq] at h
    rw [← h]
    rfl
  | cons l lines ih =>
    obtain ⟨chunk, stop⟩ := l
    simp only [lineTextEvents] at h
    cases hdecode : rt.decode cfg.encoding chunk with
    | none => simp [hdecode] at h
    | some text =>
      cases hrest : lineTextEvents rt cfg lines with
      | error e => simp [hdecode, hrest, Except.map] at h
      | ok rest =>
        simp only [hdecode, hrest, Except.map, Except.ok.injEq] at h
        rw [← h, ih hrest, List.filterMap_cons]
        by_cases hblank : PyText.strip text = "" <;>
          simp [lineRecord, hdecode, hblank, htype]

/-- A line format parses line by line. -/
theorem parseRecordsWithOffsets_ok (hlines : cfg.byLines = true) {body : List UInt8}
    {path : String} {start : ℕ} {records : List (Event × ℕ)}
    (h : parseRecordsWithOffsets rt cfg body path start = .ok records) :
    records = (linesFrom body start).filterMap fun l => (lineRecord rt cfg l.1).map (·, l.2) := by
  simp only [ParserConfig.byLines, decide_eq_true_eq] at hlines
  rcases hlines with htype | htype
  · simp only [parseRecordsWithOffsets, htype] at h
    exact ndjsonLineEvents_ok htype h
  · simp only [parseRecordsWithOffsets, htype] at h
    exact lineTextEvents_ok htype h

theorem parsed_records (hlines : cfg.byLines = true) {body : List UInt8} {path : String}
    {start : ℕ} {records : List (Event × ℕ)}
    (h : parseRecordsWithOffsets rt cfg body path start = .ok records) :
    records.map Prod.fst = lineRecords rt cfg body start := by
  rw [parseRecordsWithOffsets_ok hlines h, lineRecords, List.map_filterMap, List.filterMap_map]
  congr 1
  funext l
  cases hrecord : lineRecord rt cfg l.1 <;> simp [hrecord]

/-- The whole file gives the records before the offset and those the resumed read gives. -/
theorem lineRecords_append {body : List UInt8} {offset : ℕ} (h : EndsLine body offset) :
    lineRecords rt cfg body 0 =
      lineRecords rt cfg (body.take offset) 0 ++ lineRecords rt cfg body offset := by
  rw [lineRecords, linesFrom_append h, List.filterMap_append]
  rfl

/-- The other formats give the records of the whole file, which all end with it. -/
theorem parsed_whole (hlines : cfg.byLines = false) {body : List UInt8} {path : String} {start : ℕ}
    {records : List (Event × ℕ)} (h : parseRecordsWithOffsets rt cfg body path start = .ok records) :
    parseRecordsWithOffsets rt cfg body path 0 = .ok records ∧
      ∃ rs : List Event, records = rs.map fun r => (r, body.length) := by
  have hmap : ∀ {r : Except PollError (List Event)},
      r.map (fun rs => rs.map fun r => (r, body.length)) = .ok records →
        ∃ rs : List Event, records = rs.map fun r => (r, body.length) := by
    intro r hr
    cases r with
    | error e => cases hr
    | ok rs => exact ⟨rs, (Except.ok.inj hr).symm⟩
  simp only [ParserConfig.byLines, decide_eq_false_iff_not, not_or] at hlines
  unfold parseRecordsWithOffsets at h ⊢
  cases htype : normalizeParserType cfg.parserType with
  | ndjson => exact absurd htype hlines.1
  | lineText => exact absurd htype hlines.2
  | unsupported =>
    simp only [htype] at h
    cases hdecode : rt.decode cfg.encoding body <;> simp [hdecode, Except.bind] at h
  | csv =>
    simp only [htype] at h ⊢
    refine ⟨h, ?_⟩
    cases hdecode : rt.decode cfg.encoding body with
    | none => simp [hdecode, Except.bind] at h
    | some text =>
      simp only [hdecode, Except.bind] at h
      split_ifs at h
      split at h
      · exact ⟨_, (Except.ok.inj h).symm⟩
      · cases h
  | jsonArray =>
    simp only [htype] at h ⊢
    refine ⟨h, ?_⟩
    cases hdecode : rt.decode cfg.encoding body with
    | none => simp [hdecode, Except.bind] at h
    | some text =>
      simp only [hdecode, Except.bind] at h
      exact hmap h
  | jsonObject =>
    simp only [htype] at h ⊢
    refine ⟨h, ?_⟩
    cases hdecode : rt.decode cfg.encoding body with
    | none => simp [hdecode, Except.bind] at h
    | some text =>
      simp only [hdecode, Except.bind] at h
      exact hmap h

/-- Every record ends where a line ends, or with the file. -/
theorem parsed_stop {body : List UInt8} {path : String} {start : ℕ} {records : List (Event × ℕ)}
    (h : parseRecordsWithOffsets rt cfg body path start = .ok records) {record : Event} {stop : ℕ}
    (hmem : (record, stop) ∈ records) : stop ≤ body.length ∧ EndsLine body stop := by
  cases hlines : cfg.byLines with
  | true =>
    rw [parseRecordsWithOffsets_ok hlines h, List.mem_filterMap] at hmem
    obtain ⟨⟨chunk, stop'⟩, hline, hrecord⟩ := hmem
    simp only [Option.map_eq_some_iff, Prod.mk.injEq] at hrecord
    obtain ⟨_, -, -, rfl⟩ := hrecord
    exact (linesFrom_stop hline).2
  | false =>
    obtain ⟨-, rs, rfl⟩ := parsed_whole hlines h
    obtain ⟨r, -, hr⟩ := List.mem_map.mp hmem
    simp only [Prod.mk.injEq] at hr
    rw [← hr.2]
    exact ⟨le_rfl, .inl le_rfl⟩

end records

end Sources
