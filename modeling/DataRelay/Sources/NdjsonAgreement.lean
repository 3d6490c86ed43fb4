import DataRelay.Lib.Framing
import DataRelay.Lib.Raising
import DataRelay.Sources.LineResume

/-! The three readers of newline-delimited JSON. The remote file reader breaks lines at line feeds
and reads back what was written; the other two break them at every line boundary of Unicode, also
inside the strings of a record. -/
namespace Sources
open Delivery Runner

/-- The UTF-8 encoding of a text. -/
def utf8Bytes (text : String) : List UInt8 := text.toList.flatMap String.utf8EncodeChar

/-! ### The webhook receiver -/

inductive WebhookError where
  | unicodeDecode
  /-- `WebhookInvalidPayload`. -/
  | invalidPayload (message : String)
  deriving DecidableEq, Repr

section webhook

-- `jsonMsg` is the message of the `JSONDecodeError` a text raises.
variable (rt : FileRuntime) (jsonMsg : String → String)

def webhookLines : ℕ → List String → Except WebhookError (List Event)
  | _, [] => .ok []
  | lineNo, rawLine :: lines =>
    let line := PyText.strip rawLine
    if line = "" then webhookLines (lineNo + 1) lines
    else
      match rt.loads line with
      | some (.obj members) => (webhookLines (lineNo + 1) lines).map (members :: ·)
      | some _ => .error (.invalidPayload
        ("NDJSON line " ++ toString lineNo ++ " must be a JSON object"))
      | none => .error (.invalidPayload
        ("Invalid NDJSON at line " ++ toString lineNo ++ ": " ++ jsonMsg line))

/-- `_parse_ndjson` of the webhook receiver. -/
def parseNdjson (body : List UInt8) : Except WebhookError (List Event) :=
  match rt.decode "utf-8" body with
  | none => .error .unicodeDecode
  | some text => webhookLines rt jsonMsg 1 (PyText.lines text)

end webhook

/-! ### What is written -/

def openBrace : Char := '\x7b'

def closeBrace : Char := '\x7d'

/-- The text of a JSON object on one line, from its opening to its closing brace. -/
structure ObjectText (rt : FileRuntime) (text : String) (event : Event) : Prop where
  loads : rt.loads text = some (.obj event)
  opens : text.toList.head? = some openBrace
  closes : text.toList.getLast? = some closeBrace
  oneLine : '\n' ∉ text.toList

/-- The texts with line feeds between them. -/
def ndjsonText : List String → String
  | [] => ""
  | [text] => text
  | text :: texts => text ++ "\n" ++ ndjsonText texts

/-- What the readers rely on of `bytes.decode` and `json.loads`: decoding inverts encoding, an
object text cut short is not JSON, and one with more text behind it is not JSON. -/
structure ReadsUtf8Json (rt : FileRuntime) : Prop where
  utf8 : ∀ text, rt.decode "utf-8" (utf8Bytes text) = some text
  utf8Sig : ∀ text, text.toList.head? ≠ some '\uFEFF' →
    rt.decode "utf-8-sig" (utf8Bytes text) = some text
  cutShort : ∀ text rest event, ObjectText rt (text ++ rest) event → rest ≠ "" →
    rt.loads text = none
  extraData : ∀ text rest event, ObjectText rt text event → PyText.strip rest ≠ "" →
    rt.loads (text ++ "\n" ++ rest) = none

/-- No character of the text ends a line of `str.splitlines`. -/
def OneLine (text : String) : Prop := ∀ c ∈ text.toList, PyText.isLineBreak c = false

instance (text : String) : Decidable (OneLine text) :=
  List.decidableBAll (PyText.isLineBreak · = false) text.toList

/-! ### Lines of the text -/

/-- A line goes to its break, and up to there nothing is one. -/
theorem splitLines_break (line : List Char) {front : List Char} (back : List Char) {c : Char}
    (hfront : ∀ d ∈ front, PyText.isLineBreak d = false) (hc : PyText.isLineBreak c = true) :
    ∃ lines, PyText.splitLines line (front ++ c :: back) = (line ++ front) :: lines ∧
      (c ≠ '\r' → lines = PyText.splitLines [] back) := by
  induction front generalizing line with
  | nil =>
    by_cases hcr : c = '\r' ∧ ∃ rest, back = '\n' :: rest
    · obtain ⟨rfl, rest, rfl⟩ := hcr
      exact ⟨PyText.splitLines [] rest, by simp [PyText.splitLines], by simp⟩
    · refine ⟨PyText.splitLines [] back, ?_, fun _ => rfl⟩
      rw [List.nil_append, List.append_nil, PyText.splitLines, if_pos hc]
      intro rest hc' hback
      exact hcr ⟨hc', rest, hback⟩
  | cons d front ih =>
    have hd : PyText.isLineBreak d = false := hfront d List.mem_cons_self
    have hne : d ≠ '\r' := by
      rintro rfl
      revert hd
      decide
    obtain ⟨lines, hlines, hback⟩ :=
      ih (line ++ [d]) fun e he => hfront e (List.mem_cons_of_mem _ he)
    refine ⟨lines, ?_, hback⟩
    rw [List.cons_append, PyText.splitLines, hd]
    · simpa using hlines
    · intro rest hd' _
      exact hne hd'

theorem splitLines_oneLine (line : List Char) {cs : List Char}
    (h : ∀ c ∈ cs, PyText.isLineBreak c = false) (hne : line ++ cs ≠ []) :
    PyText.splitLines line cs = [line ++ cs] := by
  induction cs generalizing line with
  | nil =>
    rw [List.append_nil] at hne
    simp [PyText.splitLines, hne]
  | cons c cs ih =>
    have hc : PyText.isLineBreak c = false := h c List.mem_cons_self
    have hcr : c ≠ '\r' := by
      rintro rfl
      revert hc
      decide
    rw [PyText.splitLines, hc]
    · simpa using ih (line ++ [c]) (fun d hd => h d (List.mem_cons_of_mem _ hd)) (by simp)
    · intro rest hc' _
      exact hcr hc'

section Texts

variable {rt : FileRuntime} {text : String} {texts : List String} {event : Event}
  {events : List Event}

theorem ObjectText.toList_ne_nil (h : ObjectText rt text event) : text.toList ≠ [] := by
  intro hnil
  have hopens := h.opens
  rw [hnil] at hopens
  cases hopens

/-- An object text has no blank around it. -/
theorem ObjectText.strip_eq (h : ObjectText rt text event) : PyText.strip text = text := by
  rw [PyText.strip, PyText.stripChars_eq_self]
  · exact String.ofList_toList
  · intro c hc
    obtain rfl : openBrace = c := by simpa [h.opens] using hc
    decide
  · intro c hc
    obtain rfl : closeBrace = c := by simpa [h.closes] using hc
    decide

theorem ObjectText.ne_empty (h : ObjectText rt text event) : text ≠ "" := by
  rintro rfl
  exact h.toList_ne_nil rfl

theorem ndjsonText_cons_cons (text next : String) (texts : List String) :
    (ndjsonText (text :: next :: texts)).toList =
      text.toList ++ '\n' :: (ndjsonText (next :: texts)).toList := by
  simp [ndjsonText]

/-- What is written begins with the first record. -/
theorem ndjsonText_toList_cons (text : String) (texts : List String) :
    ∃ rest, (ndjsonText (text :: texts)).toList = text.toList ++ rest := by
  cases texts with
  | nil => exact ⟨[], by simp [ndjsonText]⟩
  | cons next texts => exact ⟨_, ndjsonText_cons_cons text next texts⟩

theorem ndjsonText_head? (h : ObjectText rt text event) (texts : List String) :
    (ndjsonText (text :: texts)).toList.head? = some openBrace := by
  obtain ⟨rest, hrest⟩ := ndjsonText_toList_cons text texts
  rw [hrest, List.head?_append, h.opens]
  rfl

theorem strip_ndjsonText_ne_empty (h : ObjectText rt text event) (texts : List String) :
    PyText.strip (ndjsonText (text :: texts)) ≠ "" := by
  intro hblank
  have hhead := ndjsonText_head? h texts
  cases hcs : (ndjsonText (text :: texts)).toList with
  | nil => simp [hcs] at hhead
  | cons c cs =>
    obtain rfl : c = openBrace := by simpa [hcs] using hhead
    have hstrip := congrArg String.toList hblank
    rw [PyText.strip, String.toList_ofList, hcs, PyText.stripChars,
      List.dropWhile_cons_of_neg (by decide)] at hstrip
    have hnil : List.rdropWhile PyText.isSpace (openBrace :: cs) = [] := by simpa using hstrip
    rw [List.rdropWhile_eq_nil_iff] at hnil
    exact absurd (hnil openBrace List.mem_cons_self) (by decide)

/-- Records on lines of their own are the lines. -/
theorem lines_ndjsonText (hobjects : List.Forall₂ (ObjectText rt) texts events)
    (hlines : ∀ text ∈ texts, OneLine text) : PyText.lines (ndjsonText texts) = texts := by
  induction hobjects with
  | nil => rfl
  | @cons text event texts events htext htexts ih =>
    have hline : OneLine text := hlines text List.mem_cons_self
    have hrest := ih fun t ht => hlines t (List.mem_cons_of_mem _ ht)
    cases texts with
    | nil =>
      rw [PyText.lines, ndjsonText, splitLines_oneLine [] hline (by simpa using htext.toList_ne_nil)]
      simp
    | cons next texts =>
      obtain ⟨lines, heq, hlater⟩ := splitLines_break [] (c := '\n')
        (ndjsonText (next :: texts)).toList hline (by decide)
      rw [PyText.lines, ndjsonText_cons_cons, heq, hlater (by decide)]
      rw [PyText.lines] at hrest
      simp [hrest]

/-! ### The S3 reader -/

theorem s3LineRecords_objects (hobjects : List.Forall₂ (ObjectText rt) texts events)
    (lenient : Bool) (subject : String) (lineNo : ℕ) :
    s3LineRecords rt lenient subject lineNo texts = .ok events := by
  induction hobjects generalizing lineNo with
  | nil => rfl
  | cons htext _ ih =>
    rw [s3LineRecords, htext.strip_eq, if_neg htext.ne_empty]
    simp [ndjsonLine, htext.loads, ih, Except.bind, Except.map]

theorem parseS3ObjectRecords_objects (hrt : ReadsUtf8Json rt)
    (hobjects : List.Forall₂ (ObjectText rt) texts events)
    (hlines : ∀ text ∈ texts, OneLine text) (lenient : Bool) (objectKey : String) :
    parseS3ObjectRecords rt lenient (utf8Bytes (ndjsonText texts)) objectKey = .ok events := by
  cases hobjects with
  | nil =>
    have hdecode := hrt.utf8Sig "" (by simp)
    simp [parseS3ObjectRecords, ndjsonText, hdecode, PyText.strip, PyText.stripChars]
  | @cons text event texts events htext htexts =>
    have hdecode := hrt.utf8Sig (ndjsonText (text :: texts)) (by
      rw [ndjsonText_head? htext]
      decide)
    simp only [parseS3ObjectRecords, hdecode, strip_ndjsonText_ne_empty htext, ↓reduceIte]
    cases htexts with
    | nil => simp [ndjsonText, htext.loads]
    | @cons next event' texts events hnext htexts =>
      have hextra : rt.loads (ndjsonText (text :: next :: texts)) = none :=
        hrt.extraData text _ event htext (strip_ndjsonText_ne_empty hnext texts)
      have hobjects := List.Forall₂.cons htext (.cons hnext htexts)
      simp only [hextra, lines_ndjsonText hobjects hlines]
      exact s3LineRecords_objects hobjects lenient _ 1

/-! ### The remote file reader -/

theorem ObjectText.ten_not_mem (h : ObjectText rt text event) : (10 : UInt8) ∉ utf8Bytes text := by
  intro hten
  obtain ⟨c, hc, hten⟩ := List.mem_flatMap.mp hten
  exact h.oneLine (Framing.ten_mem_utf8EncodeChar hten ▸ hc)

theorem ObjectText.utf8Bytes_cons (h : ObjectText rt text event) :
    ∃ bytes, utf8Bytes text = 123 :: bytes := by
  have hopens := h.opens
  unfold utf8Bytes
  cases hcs : text.toList with
  | nil => simp [hcs] at hopens
  | cons c cs =>
    obtain rfl : c = openBrace := by simpa [hcs] using hopens
    exact ⟨cs.flatMap String.utf8EncodeChar, rfl⟩

/-- A line of bytes goes to the next line feed. -/
theorem byteLines_line (line : List UInt8) {xs : List UInt8} (hline : line ≠ [])
    (hxs : (10 : UInt8) ∉ xs) (offset : ℕ) :
    byteLines line offset xs = [(line ++ xs, offset + xs.length)] ∧
      ∀ ys, byteLines line offset (xs ++ 10 :: ys) =
        (line ++ xs, offset + xs.length + 1) :: byteLines [] (offset + xs.length + 1) ys := by
  induction xs generalizing line offset with
  | nil => simp [byteLines, hline]
  | cons x xs ih =>
    rw [List.mem_cons, not_or] at hxs
    obtain ⟨hx, hxs⟩ := hxs
    obtain ⟨hlast, hmore⟩ := ih (line ++ [x]) (by simp) hxs (offset + 1)
    have hlength : offset + 1 + xs.length = offset + (x :: xs).length := by
      simp only [List.length_cons]
      omega
    rw [hlength] at hlast hmore
    refine ⟨?_, fun ys => ?_⟩
    · rw [byteLines, if_neg hline, if_neg (Ne.symm hx), hlast]
      simp
    · rw [List.cons_append, byteLines, if_neg hline, if_neg (Ne.symm hx), hmore]
      simp

theorem ObjectText.byteLines (h : ObjectText rt text event) (offset : ℕ) :
    ∃ stop, Sources.byteLines [] offset (utf8Bytes text) = [(utf8Bytes text, stop)] ∧
      ∀ ys, Sources.byteLines [] offset (utf8Bytes text ++ 10 :: ys) =
        (utf8Bytes text, stop + 1) :: Sources.byteLines [] (stop + 1) ys := by
  have hten := h.ten_not_mem
  obtain ⟨bytes, hbytes⟩ := h.utf8Bytes_cons
  rw [hbytes] at hten ⊢
  have hopen : ¬ ((123 : UInt8) = 10 ∨ (123 : UInt8) = 13) := by decide
  have hline := byteLines_line [123] (by simp) (fun hmem => hten (List.mem_cons_of_mem _ hmem))
    (offset + 1)
  refine ⟨offset + 1 + bytes.length, ?_, fun ys => ?_⟩
  · rw [Sources.byteLines, if_pos rfl, if_neg hopen]
    exact hline.1
  · rw [List.cons_append, Sources.byteLines, if_pos rfl, if_neg hopen]
    exact hline.2 ys

/-- The lines of the bytes are the encoded records, whatever characters are in them. -/
theorem byteLines_ndjsonText (hobjects : List.Forall₂ (ObjectText rt) texts events) (offset : ℕ) :
    (byteLines [] offset (utf8Bytes (ndjsonText texts))).map Prod.fst = texts.map utf8Bytes := by
  induction hobjects generalizing offset with
  | nil => rfl
  | @cons text event texts events htext htexts ih =>
    obtain ⟨stop, hlast, hmore⟩ := htext.byteLines offset
    cases texts with
    | nil => simp [ndjsonText, hlast]
    | cons next texts =>
      have hbytes : utf8Bytes (ndjsonText (text :: next :: texts)) =
          utf8Bytes text ++ 10 :: utf8Bytes (ndjsonText (next :: texts)) := by
        rw [utf8Bytes, ndjsonText_cons_cons, List.flatMap_append, List.flatMap_cons]
        rfl
      rw [hbytes, hmore, List.map_cons, ih]
      rfl

theorem ndjsonLineEvents_objects {cfg : ParserConfig} (hrt : ReadsUtf8Json rt)
    (hencoding : cfg.encoding = "utf-8") (hobjects : List.Forall₂ (ObjectText rt) texts events)
    {lines : List (List UInt8 × ℕ)} (hlines : lines.map Prod.fst = texts.map utf8Bytes)
    (subject : String) (lineNo : ℕ) :
    (ndjsonLineEvents rt cfg subject lineNo lines).map (·.map Prod.fst) = .ok events := by
  induction hobjects generalizing lines lineNo with
  | nil =>
    obtain rfl : lines = [] := by simpa using hlines
    rfl
  | @cons text event texts events htext htexts ih =>
    cases lines with
    | nil => simp at hlines
    | cons l lines =>
      obtain ⟨chunk, stop⟩ := l
      simp only [List.map_cons, List.cons.injEq] at hlines
      obtain ⟨rfl, hlines⟩ := hlines
      have hrest := ih hlines (lineNo + 1)
      rw [ndjsonLineEvents, hencoding, hrt.utf8]
      simp only [htext.strip_eq, htext.ne_empty, ↓reduceIte, ndjsonLine, htext.loads]
      cases hok : ndjsonLineEvents rt cfg subject (lineNo + 1) lines with
      | error e => simp [hok, Except.map] at hrest
      | ok records =>
        obtain rfl : records.map Prod.fst = events := by simpa [hok, Except.map] using hrest
        simp [Except.bind, Except.map]

/-- The remote file reader reads back what was written. -/
theorem parseRecordsWithOffsets_objects (hrt : ReadsUtf8Json rt)
    (hobjects : List.Forall₂ (ObjectText rt) texts events) (lenient : Bool) (remotePath : String) :
    (parseRecordsWithOffsets rt { lenientNdjson := lenient } (utf8Bytes (ndjsonText texts))
      remotePath 0).map (·.map Prod.fst) = .ok events := by
  have htype : normalizeParserType "NDJSON" = .ndjson := by decide +kernel
  simp only [parseRecordsWithOffsets, htype]
  apply ndjsonLineEvents_objects hrt rfl hobjects
  rw [linesFrom_zero]
  exact byteLines_ndjsonText hobjects 0

/-! ### The webhook receiver reads the lines of the text -/

theorem webhookLines_objects {jsonMsg : String → String}
    (hobjects : List.Forall₂ (ObjectText rt) texts events) (lineNo : ℕ) :
    webhookLines rt jsonMsg lineNo texts = .ok events := by
  induction hobjects generalizing lineNo with
  | nil => rfl
  | cons htext _ ih =>
    simp [webhookLines, htext.strip_eq, htext.ne_empty, htext.loads, ih, Except.map]

/-- The part of an object text before a line break is not blank and not JSON. -/
theorem ObjectText.cut (hrt : ReadsUtf8Json rt) (h : ObjectText rt text event)
    {front back : List Char} {c : Char} (htext : text.toList = front ++ c :: back)
    (hc : PyText.isLineBreak c = true) :
    PyText.strip (String.ofList front) ≠ "" ∧
      rt.loads (PyText.strip (String.ofList front)) = none := by
  have hopens := h.opens
  rw [htext] at hopens
  cases front with
  | nil =>
    obtain rfl : c = openBrace := by simpa using hopens
    exact absurd hc (by decide)
  | cons d front =>
    obtain rfl : d = openBrace := by simpa using hopens
    have hstrip : PyText.stripChars (openBrace :: front) =
        (openBrace :: front).rdropWhile PyText.isSpace := by
      rw [PyText.stripChars, List.dropWhile_cons_of_neg (by decide)]
    have hpre : PyText.stripChars (openBrace :: front) <+: openBrace :: front := by
      rw [hstrip]
      exact List.rdropWhile_prefix PyText.isSpace _
    obtain ⟨blanks, hblanks⟩ := hpre
    rw [PyText.strip, String.toList_ofList]
    refine ⟨fun hempty => ?_, ?_⟩
    · have hnil : (openBrace :: front).rdropWhile PyText.isSpace = [] := by
        rw [← hstrip]
        exact String.ofList_eq_empty_iff.mp hempty
      rw [List.rdropWhile_eq_nil_iff] at hnil
      exact absurd (hnil openBrace List.mem_cons_self) (by decide)
    · refine hrt.cutShort _ (String.ofList (blanks ++ c :: back)) event ?_ ?_
      · have heq : String.ofList (PyText.stripChars (openBrace :: front)) ++
            String.ofList (blanks ++ c :: back) = text := by
          apply String.toList_inj.mp
          simp only [String.toList_append, String.toList_ofList]
          rw [htext, ← List.append_assoc, hblanks]
        rwa [heq]
      · simp

/-- A text with a line break in it is cut at its first. -/
theorem exists_first_break {cs : List Char} (h : ¬ ∀ c ∈ cs, PyText.isLineBreak c = false) :
    ∃ front c back, cs = front ++ c :: back ∧ PyText.isLineBreak c = true ∧
      ∀ d ∈ front, PyText.isLineBreak d = false := by
  induction cs with
  | nil => simp at h
  | cons d cs ih =>
    cases hd : PyText.isLineBreak d with
    | true => exact ⟨[], d, cs, rfl, hd, by simp⟩
    | false =>
      obtain ⟨front, c, back, rfl, hc, hfront⟩ := ih (by simpa [hd] using h)
      refine ⟨d :: front, c, back, rfl, hc, ?_⟩
      simpa [hd] using hfront

/-- A record with a line break in it makes the receiver raise. -/
theorem oneLine_of_webhookLines (hrt : ReadsUtf8Json rt) {jsonMsg : String → String}
    (hobjects : List.Forall₂ (ObjectText rt) texts events) {lineNo : ℕ} {records : List Event}
    (h : webhookLines rt jsonMsg lineNo (PyText.lines (ndjsonText texts)) = .ok records) :
    ∀ text ∈ texts, OneLine text := by
  induction hobjects generalizing lineNo records with
  | nil => simp
  | @cons text event texts events htext htexts ih =>
    have hline : OneLine text := by
      by_contra hbreak
      obtain ⟨front, c, back, heq, hc, hfront⟩ := exists_first_break hbreak
      obtain ⟨rest, hrest⟩ := ndjsonText_toList_cons text texts
      obtain ⟨lines, hlines, -⟩ := splitLines_break [] (back ++ rest) hfront hc
      obtain ⟨hblank, hloads⟩ := htext.cut hrt heq hc
      rw [PyText.lines, hrest, heq, List.append_assoc, List.cons_append, hlines] at h
      simp [webhookLines, hblank, hloads] at h
    refine List.forall_mem_cons.mpr ⟨hline, ?_⟩
    cases texts with
    | nil => simp
    | cons next texts =>
      obtain ⟨lines, hlines, hlater⟩ := splitLines_break [] (c := '\n')
        (ndjsonText (next :: texts)).toList hline (by decide)
      rw [PyText.lines, ndjsonText_cons_cons, hlines, hlater (by decide), List.map_cons,
        List.nil_append, String.ofList_toList, webhookLines, htext.strip_eq,
        if_neg htext.ne_empty] at h
      simp only [htext.loads] at h
      obtain ⟨records', h, -⟩ := Raising.map_eq_ok h
      exact ih h

end Texts

/-- The three readers give the records that were written, whether or not they pass over lines that
are no JSON object. -/
def NothingLost (rt : FileRuntime) (texts : List String) (events : List Event) : Prop :=
  ∀ (lenient : Bool) (name : String) (jsonMsg : String → String),
    parseS3ObjectRecords rt lenient (utf8Bytes (ndjsonText texts)) name = .ok events ∧
      (parseRecordsWithOffsets rt { lenientNdjson := lenient } (utf8Bytes (ndjsonText texts)) name
        0).map (·.map Prod.fst) = .ok events ∧
      parseNdjson rt jsonMsg (utf8Bytes (ndjsonText texts)) = .ok events

/-- No record is lost, in any of the readers, exactly where none of the texts has a character in it
that ends a line for `str.splitlines`. -/
theorem nothingLost_iff (rt : FileRuntime) (hrt : ReadsUtf8Json rt) (texts : List String)
    (events : List Event) (hobjects : List.Forall₂ (ObjectText rt) texts events) :
    NothingLost rt texts events ↔ ∀ text ∈ texts, OneLine text := by
  constructor
  · intro h
    obtain ⟨-, -, hwebhook⟩ := h true "" id
    simp only [parseNdjson, hrt.utf8] at hwebhook
    exact oneLine_of_webhookLines hrt hobjects hwebhook
  · intro hlines lenient name jsonMsg
    refine ⟨parseS3ObjectRecords_objects hrt hobjects hlines lenient name,
      parseRecordsWithOffsets_objects hrt hobjects lenient name, ?_⟩
    simp only [parseNdjson, hrt.utf8, lines_ndjsonText hobjects hlines]
    exact webhookLines_objects hobjects 1

/-! ### A record with a line separator in a string -/

/-- UTF-8, and the two JSON texts of the example. -/
def noteRuntime : FileRuntime where
  decode encoding bytes := (String.fromUTF8? bytes.toByteArray).map fun text =>
    if encoding = "utf-8-sig" ∧ text.toList.head? = some '\uFEFF' then
      String.ofList text.toList.tail
    else text
  loads text :=
    if text = "\x7b\"id\": 1\x7d" then some (.obj [("id", .int 1)])
    else if text = "\x7b\"note\": \"a\u2028b\"\x7d" then
      some (.obj [("note", .str "a\u2028b")])
    else none

def noteTexts : List String := ["\x7b\"id\": 1\x7d", "\x7b\"note\": \"a\u2028b\"\x7d"]

theorem noteRuntime_loads {text : String} {v : Json} (h : noteRuntime.loads text = some v) :
    text ∈ noteTexts := by
  simp only [noteRuntime] at h
  split_ifs at h with h1 h2
  · simp [noteTexts, h1]
  · simp [noteTexts, h2]

theorem noteRuntime_loads_none {text : String} (h : text ∉ noteTexts) :
    noteRuntime.loads text = none := by
  by_contra hsome
  obtain ⟨v, hv⟩ := Option.ne_none_iff_exists'.mp hsome
  exact h (noteRuntime_loads hv)

theorem fromUTF8_utf8Bytes (text : String) :
    String.fromUTF8? (utf8Bytes text).toByteArray = some text := by
  have hbytes : (utf8Bytes text).toByteArray = text.toByteArray := String.utf8Encode_toList
  rw [hbytes, String.fromUTF8?, dif_pos text.isValidUTF8]
  rfl

theorem noteRuntime_reads : ReadsUtf8Json noteRuntime := by
  refine ⟨fun text => ?_, fun text hhead => ?_, fun text rest event h hrest => ?_,
    fun text rest event h hrest => ?_⟩
  · simp only [noteRuntime, fromUTF8_utf8Bytes, Option.map_some]
    rw [if_neg]
    rintro ⟨h, -⟩
    revert h
    decide
  · simp only [noteRuntime, fromUTF8_utf8Bytes, Option.map_some]
    rw [if_neg]
    exact fun h => hhead h.2
  · apply noteRuntime_loads_none
    intro hmem
    have hpre : text.toList <+: (text ++ rest).toList := ⟨rest.toList, by simp⟩
    have hkeys : ∀ t ∈ noteTexts, ∀ u ∈ noteTexts, t.toList <+: u.toList → t = u := by decide +kernel
    have heq := congrArg String.length (hkeys text hmem _ (noteRuntime_loads h.loads) hpre)
    have hpos : rest.length ≠ 0 := by simpa using hrest
    rw [String.length_append] at heq
    omega
  · apply noteRuntime_loads_none
    intro hmem
    have hkeys : ∀ t ∈ noteTexts, '\n' ∉ t.toList := by decide +kernel
    exact hkeys _ hmem (by simp)

theorem noteTexts_objects : List.Forall₂ (ObjectText noteRuntime) noteTexts
    [[("id", .int 1)], [("note", .str "a\u2028b")]] := by
  refine .cons ⟨?_, ?_, ?_, ?_⟩ (.cons ⟨?_, ?_, ?_, ?_⟩ .nil)
  all_goals decide +kernel

/-- Two lines without a separator in them. -/
theorem plainRecords_kept :
    NothingLost noteRuntime ["\x7b\"id\": 1\x7d", "\x7b\"id\": 1\x7d"]
      [[("id", .int 1)], [("id", .int 1)]] :=
  have hobject := (List.forall₂_cons.mp noteTexts_objects).1
  (nothingLost_iff noteRuntime noteRuntime_reads _ _ (.cons hobject (.cons hobject .nil))).mpr
    (by decide +kernel)

/-- The S3 reader passes over both halves of the second record, and nothing says so. -/
theorem separatorRecord_lost :
    List.Forall₂ (ObjectText noteRuntime) noteTexts
      [[("id", .int 1)], [("note", .str "a\u2028b")]] ∧
    parseS3ObjectRecords noteRuntime true (utf8Bytes (ndjsonText noteTexts)) "audit.ndjson" =
      .ok [[("id", .int 1)]] ∧
    ¬ NothingLost noteRuntime noteTexts [[("id", .int 1)], [("note", .str "a\u2028b")]] := by
  have hlost : parseS3ObjectRecords noteRuntime true (utf8Bytes (ndjsonText noteTexts))
      "audit.ndjson" = .ok [[("id", .int 1)]] := by
    have hdecode := noteRuntime_reads.utf8Sig (ndjsonText noteTexts) (by decide +kernel)
    simp only [parseS3ObjectRecords, hdecode]
    decide +kernel
  refine ⟨noteTexts_objects, hlost, fun h => ?_⟩
  have hkept := (h true "audit.ndjson" id).1
  rw [hlost] at hkept
  simp at hkept

end Sources
