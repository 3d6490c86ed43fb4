import DataRelay.Lib.Raising
import DataRelay.Sources.LineResume

/-! Reading on from the end of a record: a resumed parse gives the records behind it, with the
offsets the parse of the whole file gives them. -/
namespace Sources
open Delivery Runner

/-- Every line ends behind where the bytes begin. -/
theorem lt_stop_of_mem_byteLines {line rest : List UInt8} {offset : ℕ} {chunk : List UInt8}
    {stop : ℕ} (h : (chunk, stop) ∈ byteLines line offset rest) : offset < stop ∨ line ≠ [] ∧ offset ≤ stop := by
  induction rest generalizing line offset with
  | nil =>
    by_cases hnil : line = []
    · simp [byteLines, hnil] at h
    · simp only [byteLines, hnil, ↓reduceIte, List.mem_singleton, Prod.mk.injEq] at h
      exact .inr ⟨hnil, h.2.ge⟩
  | cons b rest ih =>
    have hnext {line' : List UInt8} (h : (chunk, stop) ∈ byteLines line' (offset + 1) rest) :
        offset < stop := by
      rcases ih h with hlt | ⟨-, hle⟩ <;> omega
    simp only [byteLines] at h
    left
    split_ifs at h
    · exact hnext h
    · exact hnext h
    · rcases List.mem_cons.mp h with hhead | htail
      · simp only [Prod.mk.injEq] at hhead
        omega
      · exact hnext htail
    · exact hnext h

/-- The lines end one behind the other. -/
theorem byteLines_increasing (line : List UInt8) (offset : ℕ) (rest : List UInt8) :
    (byteLines line offset rest).Pairwise fun l m => l.2 < m.2 := by
  induction rest generalizing line offset with
  | nil => by_cases hnil : line = [] <;> simp [byteLines, hnil]
  | cons b rest ih =>
    simp only [byteLines]
    split_ifs
    · exact ih _ _
    · exact ih _ _
    · refine List.pairwise_cons.mpr ⟨fun l hl => ?_, ih _ _⟩
      rcases @lt_stop_of_mem_byteLines _ _ _ l.1 l.2 hl with hlt | ⟨hne, -⟩
      · exact hlt
      · exact absurd rfl hne
    · exact ih _ _

/-- The bytes behind the end of a line have the lines behind it, and the end is that of the bytes
or stands behind a line break. -/
theorem byteLines_resume {line rest chunk : List UInt8} {offset stop : ℕ}
    {before after : List (List UInt8 × ℕ)}
    (h : byteLines line offset rest = before ++ (chunk, stop) :: after) :
    ∃ n, stop = offset + n ∧ n ≤ rest.length ∧ byteLines [] stop (rest.drop n) = after ∧
      (n = rest.length ∨ ∃ k, n = k + 1 ∧ rest[k]? = some 10) := by
  induction rest generalizing line offset before with
  | nil =>
    by_cases hnil : line = []
    · simp [byteLines, hnil] at h
    · rw [byteLines, if_neg hnil] at h
      cases before with
      | nil =>
        simp only [List.nil_append, List.cons.injEq, Prod.mk.injEq] at h
        obtain ⟨⟨-, rfl⟩, rfl⟩ := h
        exact ⟨0, rfl, le_rfl, by simp [byteLines], .inl rfl⟩
      | cons l before => simp at h
  | cons b rest ih =>
    have hlater {line' : List UInt8} {before' : List (List UInt8 × ℕ)}
        (h : byteLines line' (offset + 1) rest = before' ++ (chunk, stop) :: after) :
        ∃ n, stop = offset + n ∧ n ≤ (b :: rest).length ∧
          byteLines [] stop ((b :: rest).drop n) = after ∧
          (n = (b :: rest).length ∨ ∃ k, n = k + 1 ∧ (b :: rest)[k]? = some 10) := by
      obtain ⟨n, hstop, hn, hafter, hend⟩ := ih h
      refine ⟨n + 1, by omega, by simpa using hn, by simpa using hafter, ?_⟩
      rcases hend with rfl | ⟨k, rfl, hk⟩
      · exact .inl rfl
      · exact .inr ⟨k + 1, rfl, by simpa using hk⟩
    simp only [byteLines] at h
    split_ifs at h with hnil hbreak hbreak
    · exact hlater h
    · exact hlater h
    · cases before with
      | nil =>
        simp only [List.nil_append, List.cons.injEq, Prod.mk.injEq] at h
        obtain ⟨⟨-, rfl⟩, rfl⟩ := h
        exact ⟨1, rfl, by simp, rfl, .inr ⟨0, rfl, by simp [hbreak]⟩⟩
      | cons l before =>
        simp only [List.cons_append, List.cons.injEq] at h
        exact hlater h.2
    · exact hlater h

/-- The resumed read aligns with the end of a line as it is. -/
theorem linesFrom_resume {body chunk : List UInt8} {stop : ℕ}
    {before after : List (List UInt8 × ℕ)}
    (h : linesFrom body 0 = before ++ (chunk, stop) :: after) : linesFrom body stop = after := by
  have hpos : 0 < stop := by
    have hmem : (chunk, stop) ∈ linesFrom body 0 := by
      rw [h]
      exact List.mem_append_right _ List.mem_cons_self
    exact (linesFrom_stop hmem).1
  rw [linesFrom_zero] at h
  obtain ⟨n, hstop, hn, hafter, hend⟩ := byteLines_resume h
  rw [Nat.zero_add] at hstop
  subst hstop
  have halign : alignLineStart body stop = stop := by
    unfold alignLineStart
    rw [if_neg (by omega)]
    rcases hend with rfl | ⟨k, rfl, hk⟩
    · rw [if_pos le_rfl]
    · split_ifs with hlong hbreak
      · omega
      · rfl
      · exact absurd hk hbreak
  rw [linesFrom, halign, hafter]

section Records

variable {rt : FileRuntime} {cfg : ParserConfig} {path : String}

/-- The number of a line only stands in the messages. -/
theorem ndjsonLine_lineNo {lenient : Bool} {subject piece : String} {lineNo : ℕ}
    {record : Option Event} (h : ndjsonLine rt lenient subject lineNo piece = .ok record) (m : ℕ) :
    ndjsonLine rt lenient subject m piece = .ok record := by
  unfold ndjsonLine at h ⊢
  split at h
  · exact h
  · split_ifs at h ⊢
    exact h
  · split_ifs at h ⊢
    exact h

theorem ndjsonLineEvents_lineNo {subject : String} {lineNo : ℕ} {lines : List (List UInt8 × ℕ)}
    {records : List (Event × ℕ)} (h : ndjsonLineEvents rt cfg subject lineNo lines = .ok records)
    (m : ℕ) : ndjsonLineEvents rt cfg subject m lines = .ok records := by
  induction lines generalizing lineNo m records with
  | nil => exact h
  | cons l lines ih =>
    obtain ⟨chunk, stop⟩ := l
    simp only [ndjsonLineEvents] at h ⊢
    cases hdecode : rt.decode cfg.encoding chunk with
    | none => simp [hdecode] at h
    | some text =>
      simp only [hdecode] at h ⊢
      split_ifs at h ⊢ with hblank
      · exact ih h (m + 1)
      · obtain ⟨record, hline, h⟩ := Raising.bind_eq_ok h
        obtain ⟨rest, hrest, rfl⟩ := Raising.map_eq_ok h
        rw [ndjsonLine_lineNo hline m, ih hrest (m + 1)]
        rfl

/-- A parser that gets through some lines gets through the last of them. -/
theorem ndjsonLineEvents_suffix {subject : String} {lineNo : ℕ}
    {front lines : List (List UInt8 × ℕ)} {records : List (Event × ℕ)}
    (h : ndjsonLineEvents rt cfg subject lineNo (front ++ lines) = .ok records) :
    ∃ m rest, ndjsonLineEvents rt cfg subject m lines = .ok rest := by
  induction front generalizing lineNo records with
  | nil => exact ⟨lineNo, records, h⟩
  | cons l front ih =>
    obtain ⟨chunk, stop⟩ := l
    simp only [List.cons_append, ndjsonLineEvents] at h
    cases hdecode : rt.decode cfg.encoding chunk with
    | none => simp [hdecode] at h
    | some text =>
      simp only [hdecode] at h
      split_ifs at h
      · exact ih h
      · obtain ⟨record, -, h⟩ := Raising.bind_eq_ok h
        obtain ⟨rest, hrest, -⟩ := Raising.map_eq_ok h
        exact ih hrest

theorem lineTextEvents_suffix {front lines : List (List UInt8 × ℕ)} {records : List (Event × ℕ)}
    (h : lineTextEvents rt cfg (front ++ lines) = .ok records) :
    ∃ rest, lineTextEvents rt cfg lines = .ok rest := by
  induction front generalizing records with
  | nil => exact ⟨records, h⟩
  | cons l front ih =>
    obtain ⟨chunk, stop⟩ := l
    simp only [List.cons_append, lineTextEvents] at h
    cases hdecode : rt.decode cfg.encoding chunk with
    | none => simp [hdecode] at h
    | some text =>
      simp only [hdecode] at h
      obtain ⟨rest, hrest, -⟩ := Raising.map_eq_ok h
      exact ih hrest

/-- Where the parse of the whole file goes through, a parse that begins at the end of one of its
lines goes through. -/
theorem parse_suffix {path : String} (hlines : cfg.byLines = true) {body : List UInt8} {stop : ℕ}
    {front : List (List UInt8 × ℕ)} (hsplit : linesFrom body 0 = front ++ linesFrom body stop)
    {records : List (Event × ℕ)} (h : parseRecordsWithOffsets rt cfg body path 0 = .ok records) :
    ∃ rest, parseRecordsWithOffsets rt cfg body path stop = .ok rest := by
  simp only [ParserConfig.byLines, decide_eq_true_eq] at hlines
  rcases hlines with htype | htype
  · simp only [parseRecordsWithOffsets, htype, hsplit] at h ⊢
    obtain ⟨m, rest, hrest⟩ := ndjsonLineEvents_suffix h
    exact ⟨rest, ndjsonLineEvents_lineNo hrest 1⟩
  · simp only [parseRecordsWithOffsets, htype, hsplit] at h ⊢
    exact lineTextEvents_suffix h

/-- A record of the lines is the record of one of them. -/
theorem filterMap_split {α β : Type} {f : α → Option β} {l : List α} {before after : List β} {b : β}
    (h : l.filterMap f = before ++ b :: after) :
    ∃ front a back, l = front ++ a :: back ∧ f a = some b ∧ back.filterMap f = after := by
  induction l generalizing before with
  | nil => simp at h
  | cons x l ih =>
    rw [List.filterMap_cons] at h
    cases hx : f x with
    | none =>
      rw [hx] at h
      obtain ⟨front, a, back, rfl, ha, hback⟩ := ih h
      exact ⟨x :: front, a, back, rfl, ha, hback⟩
    | some y =>
      rw [hx] at h
      cases before with
      | nil =>
        simp only [List.nil_append, List.cons.injEq] at h
        obtain ⟨rfl, hafter⟩ := h
        exact ⟨[], x, l, rfl, hx, hafter⟩
      | cons z before =>
        simp only [List.cons_append, List.cons.injEq] at h
        obtain ⟨front, a, back, rfl, ha, hback⟩ := ih h.2
        exact ⟨x :: front, a, back, rfl, ha, hback⟩

/-- A parse from the end of a record gives the records behind it with their offsets; the offsets
increase and stay within the file. -/
theorem line_resume_exact (rt : FileRuntime) (cfg : ParserConfig) (hlines : cfg.byLines = true)
    (body : List UInt8) (path : String) (records : List (Event × ℕ))
    (h : parseRecordsWithOffsets rt cfg body path 0 = .ok records) :
    (∀ before event stop after, records = before ++ (event, stop) :: after →
        parseRecordsWithOffsets rt cfg body path stop = .ok after) ∧
      (records.Pairwise fun r s => r.2 < s.2) ∧ ∀ r ∈ records, r.2 ≤ body.length := by
  have hrecords := parseRecordsWithOffsets_ok hlines h
  refine ⟨?_, ?_, ?_⟩
  · rintro before event stop after hsplit
    rw [hrecords] at hsplit
    obtain ⟨front, ⟨chunk, stop'⟩, back, hl, hline, hback⟩ := filterMap_split hsplit
    obtain ⟨event', -, heq⟩ := Option.map_eq_some_iff.mp hline
    obtain ⟨rfl, rfl⟩ := Prod.mk.inj heq
    have hresume := linesFrom_resume hl
    have hfront : linesFrom body 0 = (front ++ [(chunk, stop')]) ++ linesFrom body stop' := by
      rw [hresume, hl]
      simp
    obtain ⟨rest, hrest⟩ := parse_suffix hlines hfront h
    rw [hrest, parseRecordsWithOffsets_ok hlines hrest, hresume, hback]
  · rw [hrecords, List.pairwise_filterMap]
    rw [linesFrom_zero]
    refine (byteLines_increasing [] 0 body).imp ?_
    intro l m hlt r hr s hs
    obtain ⟨_, -, rfl⟩ := Option.map_eq_some_iff.mp hr
    obtain ⟨_, -, rfl⟩ := Option.map_eq_some_iff.mp hs
    exact hlt
  · rintro ⟨event, stop⟩ hmem
    exact (parsed_stop h hmem).1

end Records

/-- ASCII texts in any encoding. -/
def asciiLines : FileRuntime where
  decode _ bytes := some (String.ofList (bytes.map fun b => Char.ofNat b.toNat))
  loads _ := none

/-- Three lines, the second blank and the last without a line break. -/
theorem blankLine_resumed :
    parseRecordsWithOffsets asciiLines { parserType := "LINE_TEXT" } [97, 10, 13, 10, 98] "a.log" 2 =
      .ok [([("line", .str "b")], 5)] :=
  (line_resume_exact asciiLines { parserType := "LINE_TEXT" } (by decide +kernel) [97, 10, 13, 10, 98] "a.log"
    [([("line", .str "a")], 2), ([("line", .str "b")], 5)] (by decide +kernel)).1
    [] [("line", .str "a")] 2 [([("line", .str "b")], 5)] rfl

end Sources
