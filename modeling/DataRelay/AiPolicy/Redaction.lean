import DataRelay.AiPolicy.PromptInspection
import DataRelay.Lib.Splicing

/-! What redaction does to the contents of a payload. The inspected texts are joined into one,
each rule marks one occurrence of its keyword there, and the result is written to one place. -/
namespace AiPolicy
open Runner PyText Splicing

variable (rt : Runtime)

/-- The enabled rules that redact a keyword. -/
def redactRules (rows : List AiPolicyRule) (aiStreamId : ℤ) (target : Target) :
    List AiPolicyRule :=
  (activeRules rows aiStreamId target).filter fun r =>
    decide (r.inspectionType = .keyword) && decide (r.actionType = .redact)

/-- A piece of text is the rule's keyword in the rule's case mode. -/
def Hit (rule : AiPolicyRule) (w : List Char) : Prop :=
  if ignoreCase rule.conditionJson then
    rt.letters.lowerChars w = rt.letters.lowerChars (keywordOf rt rule.conditionJson).toList
  else w = (keywordOf rt rule.conditionJson).toList

/-- The text is the original with occurrences of keywords replaced, up to white space around it,
and no keyword occurs in it. -/
structure RedactedText (rules : List AiPolicyRule) (original text : String) : Prop where
  clean : ∀ rule ∈ rules, aiKeywordMatches rt rule.conditionJson text = false
  own : ∃ marked, Marked (fun w => ∃ rule ∈ rules, Hit rt rule w) redacted.toList
      original.toList marked ∧ stripChars text.toList = stripChars marked

/-- One message or choice before and after: `content` is its string content and `put` replaces
it. -/
def SlotRedacted (rules : List AiPolicyRule) (content : Json → Option String)
    (put : String → Json → Option Json) (v v' : Json) : Prop :=
  match content v with
  | none => v' = v
  | some c => ∃ c', put c' v = some v' ∧ RedactedText rt rules c c'

/-- The keyword rules of a target: their keywords share no letter with the mark, and no other
rule is met. Keywords are never blank, and ids are keys. -/
structure Redactors (rows : List AiPolicyRule) (aiStreamId : ℤ) (target : Target)
    (text : String) : Prop where
  ids : (rows.map (·.id)).Nodup
  named : ∀ rule ∈ redactRules rows aiStreamId target,
    strip (keywordOf rt rule.conditionJson) ≠ ""
  apart : ∀ rule ∈ redactRules rows aiStreamId target, ∀ c ∈ rt.letters.lowerChars redacted.toList,
    c ∉ rt.letters.lowerChars (keywordOf rt rule.conditionJson).toList
  others : ∀ rule ∈ activeRules rows aiStreamId target,
    rule ∉ redactRules rows aiStreamId target →
      aiRuleMatches rt rule text (rt.findingClasses text) = false

/-! ### How a rule reads a text -/

/-- What the rule looks for. -/
def wordOf (rule : AiPolicyRule) : List Char :=
  if ignoreCase rule.conditionJson then
    rt.letters.lowerChars (keywordOf rt rule.conditionJson).toList
  else (keywordOf rt rule.conditionJson).toList

/-- The lower case of the keyword has a sigma, which reads differently at the end of a word. -/
def HasSigma (rule : AiPolicyRule) : Prop :=
  ignoreCase rule.conditionJson = true ∧ ('σ' ∈ wordOf rt rule ∨ 'ς' ∈ wordOf rt rule)

instance (rule : AiPolicyRule) : Decidable (HasSigma rt rule) :=
  inferInstanceAs (Decidable (_ ∧ (_ ∨ _)))

/-- What the rule reads a letter as, if its keyword has no sigma. -/
def readLetter (rule : AiPolicyRule) (c : Char) : List Char :=
  if ignoreCase rule.conditionJson then rt.letters.lowerAnywhere c else [c]

/-- The letters of a text, each with what the rule reads it as. -/
def noteFor (rule : AiPolicyRule) (s : List Char) : List (Char × List Char) :=
  if HasSigma rt rule then rt.letters.notes s else s.map fun c => (c, readLetter rt rule c)

/-- The letters are the keyword, and as many. -/
def Fits (rule : AiPolicyRule) (k : List (Char × List Char)) : Prop :=
  Hit rt rule (k.map Prod.fst) ∧ k.length = (keywordOf rt rule.conditionJson).length

/-- Some hits of the rules marked, one more mark leaves the lower case of the other letters. -/
def Steady (rules : List AiPolicyRule) (content : List Char) : Prop :=
  ∀ a k b, Marked (fun w => ∃ r ∈ rules, Hit rt r w) redacted.toList content (a ++ k ++ b) →
    (∃ r ∈ rules, Hit rt r k) → rt.letters.notes (a ++ redacted.toList ++ b) =
      (rt.letters.notes (a ++ k ++ b)).take a.length ++ rt.letters.notes redacted.toList ++
        (rt.letters.notes (a ++ k ++ b)).drop (a ++ k).length

/-- Where the rule reads its keyword, whole letters stand that are the keyword, with as many
letters before them as are read there; and no two such places are apart. The marks do not change
how a keyword with a sigma is read. -/
structure FoundOnce (rules : List AiPolicyRule) (rule : AiPolicyRule) (content : List Char) :
    Prop where
  aligned : Aligned (wordOf rt rule) (Fits rt rule) (noteFor rt rule content)
  once : NotTwice (wordOf rt rule) (noteFor rt rule content)
  steady : HasSigma rt rule → Steady rt rules content

theorem map_fst_noteFor (rule : AiPolicyRule) (s : List Char) :
    (noteFor rt rule s).map Prod.fst = s := by
  unfold noteFor
  split_ifs
  · exact rt.letters.map_fst_notesFrom [] s
  · rw [List.map_map]
    exact List.map_id s

/-- Without a sigma in it the keyword is found alike however the sigmas of the text are read. -/
theorem plainSigma_wordOf {rule : AiPolicyRule} (hcase : ignoreCase rule.conditionJson = true)
    (h : ¬ HasSigma rt rule) :
    ∀ d ∈ wordOf rt rule, ∀ e, CaseTable.plainSigma e = d ↔ e = d := by
  intro d hd e
  refine CaseTable.plainSigma_eq_iff ⟨?_, ?_⟩
  · rintro rfl
    exact h ⟨hcase, .inl hd⟩
  · rintro rfl
    exact h ⟨hcase, .inr hd⟩

theorem reading_noteFor_ignoring {rule : AiPolicyRule}
    (hcase : ignoreCase rule.conditionJson = true) (s : List Char) :
    reading (noteFor rt rule s) = if HasSigma rt rule then rt.letters.lowerChars s
      else (rt.letters.lowerChars s).map CaseTable.plainSigma := by
  unfold noteFor reading
  split_ifs
  · exact rt.letters.flatMap_notesFrom [] s
  · rw [CaseTable.lowerChars, rt.letters.map_plainSigma_lowerFrom, List.flatMap_map]
    refine List.flatMap_congr fun c _ => ?_
    simp [readLetter, hcase]

theorem reading_noteFor_exact {rule : AiPolicyRule} (hcase : ignoreCase rule.conditionJson = false)
    (s : List Char) : reading (noteFor rt rule s) = s := by
  have hsigma : ¬ HasSigma rt rule := fun h => by
    rw [h.1] at hcase
    cases hcase
  rw [noteFor, if_neg hsigma, reading, List.flatMap_map]
  simp [readLetter, hcase]

theorem matches_iff_infix_reading {rule : AiPolicyRule} (hne : keywordOf rt rule.conditionJson ≠ "")
    {s : String} : aiKeywordMatches rt rule.conditionJson s = true ↔
      wordOf rt rule <:+: reading (noteFor rt rule s.toList) := by
  rw [aiKeywordMatches, if_neg hne, CaseTable.occurs_iff]
  cases hcase : ignoreCase rule.conditionJson with
  | false => simp [reading_noteFor_exact rt hcase, wordOf, hcase]
  | true =>
    rw [reading_noteFor_ignoring rt hcase]
    by_cases hsigma : HasSigma rt rule
    · simp [wordOf, hcase, hsigma]
    · rw [if_neg hsigma, infix_map_iff (plainSigma_wordOf rt hcase hsigma)]
      simp [wordOf, hcase]

theorem findKeyword_eq (rule : AiPolicyRule) (s : String) :
    findKeyword rt (ignoreCase rule.conditionJson) (keywordOf rt rule.conditionJson) s =
      findFrom (wordOf rt rule) (reading (noteFor rt rule s.toList)) := by
  unfold findKeyword
  cases hcase : ignoreCase rule.conditionJson with
  | false => simp [reading_noteFor_exact rt hcase, wordOf, hcase]
  | true =>
    rw [reading_noteFor_ignoring rt hcase]
    by_cases hsigma : HasSigma rt rule
    · simp [wordOf, hcase, hsigma]
    · rw [if_neg hsigma, findFrom_map (plainSigma_wordOf rt hcase hsigma)]
      simp [wordOf, hcase]

theorem wordOf_ne_nil {rule : AiPolicyRule} (hne : keywordOf rt rule.conditionJson ≠ "") :
    wordOf rt rule ≠ [] := by
  have hkeyword : (keywordOf rt rule.conditionJson).toList ≠ [] :=
    fun h => hne (String.toList_eq_nil_iff.mp h)
  unfold wordOf
  split_ifs
  · obtain ⟨c, cs, hcs⟩ := List.exists_cons_of_ne_nil hkeyword
    rw [hcs, CaseTable.lowerChars, CaseTable.lowerFrom]
    simp [rt.letters.lowerChar_ne_nil]
  · exact hkeyword

theorem noteFor_legible (rule : AiPolicyRule) (s : List Char) : Legible (noteFor rt rule s) := by
  intro note hnote
  unfold noteFor at hnote
  split_ifs at hnote
  · obtain ⟨before, after, heq⟩ := rt.letters.mem_notesFrom hnote
    rw [heq]
    exact rt.letters.lowerChar_ne_nil before after note.1
  · obtain ⟨c, -, rfl⟩ := List.mem_map.mp hnote
    unfold readLetter CaseTable.lowerAnywhere
    split_ifs
    · simp
    · simpa using rt.letters.lower_ne_nil c
    · simp

/-- The letters of the mark are ASCII, and no sigmas. -/
theorem redacted_letter : ∀ c ∈ redacted.toList, c.toNat < 128 ∧ c ≠ 'Σ' ∧
    CaseTable.plainSigma c.toLower = c.toLower := by
  have hall : redacted.toList.all (fun c => decide (c.toNat < 128 ∧ c ≠ 'Σ' ∧
      CaseTable.plainSigma c.toLower = c.toLower)) = true := by rfl
  simpa only [List.all_eq_true, decide_eq_true_eq] using hall

theorem redacted_ne : redacted.toList ≠ [] := by decide

/-- A letter of the mark reads as itself or its lower case, wherever it stands. -/
theorem noteFor_redacted {rule : AiPolicyRule} {s : List Char} {note : Char × List Char}
    (hnote : note ∈ noteFor rt rule s) (hc : note.1 ∈ redacted.toList) :
    note.2 = if ignoreCase rule.conditionJson then [note.1.toLower] else [note.1] := by
  obtain ⟨hascii, hsigma, hplain⟩ := redacted_letter note.1 hc
  unfold noteFor at hnote
  split_ifs at hnote with hhas
  · obtain ⟨before, after, heq⟩ := rt.letters.mem_notesFrom hnote
    rw [heq, CaseTable.lowerChar, if_neg hsigma, rt.letters.lower_ascii _ hascii, if_pos hhas.1]
  · obtain ⟨c, -, rfl⟩ := List.mem_map.mp hnote
    unfold readLetter
    split_ifs
    · rw [CaseTable.lowerAnywhere, if_neg hsigma, rt.letters.lower_ascii _ hascii]
      simp [hplain]
    · rfl

theorem mem_redacted_of_noteFor {rule : AiPolicyRule} {note : Char × List Char}
    (hnote : note ∈ noteFor rt rule redacted.toList) : note.1 ∈ redacted.toList := by
  have hmem := List.mem_map_of_mem (f := Prod.fst) hnote
  rwa [map_fst_noteFor] at hmem

theorem noteFor_redacted_single (rule : AiPolicyRule) :
    Single (noteFor rt rule redacted.toList) := by
  intro note hnote
  rw [noteFor_redacted rt hnote (mem_redacted_of_noteFor rt hnote)]
  split_ifs <;> rfl

theorem noteFor_redacted_ne (rule : AiPolicyRule) : noteFor rt rule redacted.toList ≠ [] := by
  intro hnil
  have hletters := map_fst_noteFor rt rule redacted.toList
  rw [hnil] at hletters
  exact redacted_ne hletters.symm

/-- What a letter of the mark reads as is no letter of the keyword. -/
theorem not_mem_wordOf {rule : AiPolicyRule}
    (hapart : ∀ c ∈ rt.letters.lowerChars redacted.toList,
      c ∉ rt.letters.lowerChars (keywordOf rt rule.conditionJson).toList)
    {s : List Char} {note : Char × List Char} (hnote : note ∈ noteFor rt rule s)
    (hc : note.1 ∈ redacted.toList) {d : Char} (hd : d ∈ note.2) : d ∉ wordOf rt rule := by
  obtain ⟨hascii, hsigma, -⟩ := redacted_letter note.1 hc
  have hlower : rt.letters.lower note.1 = [note.1.toLower] := rt.letters.lower_ascii _ hascii
  have hmiss := hapart note.1.toLower (rt.letters.mem_lowerFrom hc hsigma (by simp [hlower]) [])
  rw [noteFor_redacted rt hnote hc] at hd
  unfold wordOf
  split_ifs at hd ⊢
  · rwa [List.mem_singleton.mp hd]
  · rw [List.mem_singleton.mp hd]
    intro hmem
    exact hmiss (rt.letters.mem_lowerFrom hmem hsigma (by simp [hlower]) [])

theorem apart_noteFor {rule : AiPolicyRule}
    (hapart : ∀ c ∈ rt.letters.lowerChars redacted.toList,
      c ∉ rt.letters.lowerChars (keywordOf rt rule.conditionJson).toList) :
    Apart (wordOf rt rule) (noteFor rt rule redacted.toList) := by
  intro d hd
  obtain ⟨note, hnote, hd⟩ := List.mem_flatMap.mp hd
  exact not_mem_wordOf rt hapart hnote (mem_redacted_of_noteFor rt hnote) hd

/-- A mark in the place of a piece leaves the notes of the other letters. -/
theorem noteFor_marked {rules : List AiPolicyRule} {rule : AiPolicyRule} {content a k b : List Char}
    (hsteady : HasSigma rt rule → Steady rt rules content)
    (hmarked : Marked (fun w => ∃ r ∈ rules, Hit rt r w) redacted.toList content (a ++ k ++ b))
    (hk : ∃ r ∈ rules, Hit rt r k) :
    ∃ x y z, noteFor rt rule (a ++ k ++ b) = x ++ y ++ z ∧ x.map Prod.fst = a ∧
      y.map Prod.fst = k ∧ z.map Prod.fst = b ∧
        noteFor rt rule (a ++ redacted.toList ++ b) =
          x ++ noteFor rt rule redacted.toList ++ z := by
  by_cases hsigma : HasSigma rt rule
  · have hall : (rt.letters.notes (a ++ k ++ b)).map Prod.fst = a ++ k ++ b :=
      rt.letters.map_fst_notesFrom [] _
    refine ⟨(rt.letters.notes (a ++ k ++ b)).take a.length,
      ((rt.letters.notes (a ++ k ++ b)).drop a.length).take k.length,
      (rt.letters.notes (a ++ k ++ b)).drop (a ++ k).length, ?_, ?_, ?_, ?_, ?_⟩
    · rw [noteFor, if_pos hsigma, List.length_append, ← List.drop_drop]
      simp only [List.append_assoc, List.take_append_drop]
    · rw [List.map_take, hall]
      simp
    · rw [List.map_take, List.map_drop, hall]
      simp
    · rw [List.map_drop, hall]
      simp
    · simp only [noteFor, if_pos hsigma]
      exact hsteady hsigma a k b hmarked hk
  · refine ⟨noteFor rt rule a, noteFor rt rule k, noteFor rt rule b, ?_, map_fst_noteFor rt rule a,
      map_fst_noteFor rt rule k, map_fst_noteFor rt rule b, ?_⟩
    · simp [noteFor, if_neg hsigma]
    · simp [noteFor, if_neg hsigma]

/-! ### The loop over the rules -/

/-- The row a match came from is found again by its id. -/
theorem find?_of_mem {rows : List AiPolicyRule} (hids : (rows.map (·.id)).Nodup)
    {rule : AiPolicyRule} (h : rule ∈ rows) :
    rows.find? (·.id = rule.id) = some rule := by
  induction rows with
  | nil => cases h
  | cons r rows ih =>
    rw [List.map_cons, List.nodup_cons] at hids
    rcases List.mem_cons.mp h with rfl | hrest
    · simp
    · have hother : r.id ≠ rule.id := by
        intro heq
        exact hids.1 (heq ▸ List.mem_map_of_mem hrest)
      rw [List.find?_cons_of_neg (by simpa using hother)]
      exact ih hids.2 hrest

/-- The text as the loop has it: hits of the original marked, what is left of the keywords as
`FoundOnce` asks. -/
structure Working (rules : List AiPolicyRule) (original s : List Char) : Prop where
  marked : Marked (fun w => ∃ rule ∈ rules, Hit rt rule w) redacted.toList original s
  aligned : ∀ rule ∈ rules, Aligned (wordOf rt rule) (Fits rt rule) (noteFor rt rule s)
  once : ∀ rule ∈ rules, NotTwice (wordOf rt rule) (noteFor rt rule s)

/-- The rule reads its keyword somewhere in the text. -/
def Reads (rule : AiPolicyRule) (s : List Char) : Prop :=
  wordOf rt rule <:+: reading (noteFor rt rule s)

variable {rt} {rows rules : List AiPolicyRule} {original : List Char}

/-- One rule's turn: it marks its occurrence, or there is none. -/
theorem transformStep_redact (hids : (rows.map (·.id)).Nodup) {rule : AiPolicyRule}
    (hmem : rule ∈ rows) (hkind : rule.inspectionType = .keyword)
    (haction : rule.actionType = .redact) (hne : keywordOf rt rule.conditionJson ≠ "")
    {s : String} (haligned : Aligned (wordOf rt rule) (Fits rt rule) (noteFor rt rule s.toList)) :
    (∃ x k z, noteFor rt rule s.toList = x ++ k ++ z ∧ reading k = wordOf rt rule ∧
        Hit rt rule (k.map Prod.fst) ∧ (transformStep rt rows s rule.toMatch).toList =
          x.map Prod.fst ++ redacted.toList ++ z.map Prod.fst) ∨
      (¬ Reads rt rule s.toList ∧ transformStep rt rows s rule.toMatch = s) := by
  have hrow := find?_of_mem hids hmem
  have hkeyword := findKeyword_eq rt rule s
  cases hfind : findFrom (wordOf rt rule) (reading (noteFor rt rule s.toList)) with
  | none =>
    right
    rw [hfind] at hkeyword
    refine ⟨not_infix_of_findFrom hfind, ?_⟩
    simp [transformStep, AiPolicyRule.toMatch, haction, hkind, hrow, hne, hkeyword]
  | some idx =>
    left
    rw [hfind] at hkeyword
    obtain ⟨x, y, hxy, rfl⟩ := findFrom_eq_some hfind
    obtain ⟨a, k, b, hsplit, -, hlen, hword, hhit, hcount⟩ := haligned x y hxy
    refine ⟨a, k, b, hsplit, hword, hhit, ?_⟩
    have hs : s.toList = a.map Prod.fst ++ k.map Prod.fst ++ b.map Prod.fst := by
      rw [← map_fst_noteFor rt rule s.toList, hsplit, List.map_append, List.map_append]
    rw [← hlen] at hkeyword
    have hstep : transformStep rt rows s rule.toMatch = splice a.length k.length redacted s := by
      simp [transformStep, AiPolicyRule.toMatch, haction, hkind, hrow, hne, hkeyword,
        replacementFor, hcount]
    have htake : (a.map Prod.fst ++ k.map Prod.fst ++ b.map Prod.fst).take a.length =
        a.map Prod.fst := by
      rw [List.append_assoc]
      exact List.take_left' (by simp)
    have hdrop : (a.map Prod.fst ++ k.map Prod.fst ++ b.map Prod.fst).drop (a.length + k.length) =
        b.map Prod.fst := List.drop_left' (by simp)
    rw [hstep, splice, String.toList_ofList, hs, htake, hdrop]

/-- The rules of the loop: rows that redact a keyword apart from the mark. -/
structure Sound (rt : Runtime) (rows rules : List AiPolicyRule) : Prop where
  ids : (rows.map (·.id)).Nodup
  row : ∀ rule ∈ rules, rule ∈ rows
  kind : ∀ rule ∈ rules, rule.inspectionType = .keyword
  action : ∀ rule ∈ rules, rule.actionType = .redact
  keyword_ne : ∀ rule ∈ rules, keywordOf rt rule.conditionJson ≠ ""
  apart : ∀ rule ∈ rules, ∀ c ∈ rt.letters.lowerChars redacted.toList,
    c ∉ rt.letters.lowerChars (keywordOf rt rule.conditionJson).toList

/-- A piece that reads as the keyword has letters, and none of the mark's. -/
theorem Sound.piece (hsound : Sound rt rows rules) {rule : AiPolicyRule} (hrule : rule ∈ rules)
    {s : List Char} {x k z : List (Char × List Char)} (hs : noteFor rt rule s = x ++ k ++ z)
    (hk : reading k = wordOf rt rule) :
    k.map Prod.fst ≠ [] ∧ ∀ c ∈ k.map Prod.fst, c ∉ redacted.toList := by
  have hmem : ∀ note ∈ k, note ∈ noteFor rt rule s := by
    intro note hnote
    rw [hs]
    simp [hnote]
  constructor
  · rw [ne_eq, List.map_eq_nil_iff]
    exact ne_nil_of_reading hk (wordOf_ne_nil rt (hsound.keyword_ne rule hrule))
  · intro c hc hmark
    obtain ⟨note, hnote, rfl⟩ := List.mem_map.mp hc
    obtain ⟨d, hd⟩ := List.exists_mem_of_ne_nil _ (noteFor_legible rt rule s note (hmem note hnote))
    refine not_mem_wordOf rt (hsound.apart rule hrule) (hmem note hnote) hmark hd ?_
    rw [← hk]
    exact List.mem_flatMap.mpr ⟨note, hnote, hd⟩

section Turn

variable {a k b : List Char}

/-- A mark in the place of a hit keeps the text as the loop has it. -/
theorem Working.mark (h : Working rt rules original (a ++ k ++ b)) (hsound : Sound rt rows rules)
    (hsteady : ∀ r ∈ rules, HasSigma rt r → Steady rt rules original)
    (hhit : ∃ rule ∈ rules, Hit rt rule k) (hne : k ≠ []) (hclear : ∀ c ∈ k, c ∉ redacted.toList) :
    Working rt rules original (a ++ redacted.toList ++ b) := by
  have hnew : ∀ r ∈ rules,
      Aligned (wordOf rt r) (Fits rt r) (noteFor rt r (a ++ redacted.toList ++ b)) ∧
        NotTwice (wordOf rt r) (noteFor rt r (a ++ redacted.toList ++ b)) := by
    intro r hr
    obtain ⟨x, u, z, hold, -, -, -, hmark⟩ := noteFor_marked rt (hsteady r hr) h.marked hhit
    have haligned := h.aligned r hr
    have honce := h.once r hr
    have hlegible := noteFor_legible rt r (a ++ redacted.toList ++ b)
    have hapart := apart_noteFor rt (hsound.apart r hr)
    have hwordne := wordOf_ne_nil rt (hsound.keyword_ne r hr)
    rw [hold] at haligned honce
    rw [hmark] at hlegible ⊢
    exact ⟨haligned.marked (hold ▸ noteFor_legible rt r _) hapart (noteFor_redacted_single rt r)
      (noteFor_redacted_ne rt r) hwordne,
      honce.marked hlegible hapart (noteFor_redacted_ne rt r) hwordne⟩
  exact ⟨h.marked.marked_again hhit hne hclear redacted_ne, fun r hr => (hnew r hr).1,
    fun r hr => (hnew r hr).2⟩

/-- It brings no keyword back. -/
theorem Working.not_reads_mark (h : Working rt rules original (a ++ k ++ b))
    (hsound : Sound rt rows rules)
    (hsteady : ∀ r ∈ rules, HasSigma rt r → Steady rt rules original)
    (hhit : ∃ rule ∈ rules, Hit rt rule k) {r : AiPolicyRule} (hr : r ∈ rules)
    (hmiss : ¬ Reads rt r (a ++ k ++ b)) : ¬ Reads rt r (a ++ redacted.toList ++ b) := by
  obtain ⟨x, u, z, hold, -, -, -, hmark⟩ := noteFor_marked rt (hsteady r hr) h.marked hhit
  unfold Reads at hmiss ⊢
  rw [hold] at hmiss
  rw [hmark]
  exact fun hread => hmiss ((apart_noteFor rt (hsound.apart r hr)).infix_of_marked
    (noteFor_redacted_single rt r) (noteFor_redacted_ne rt r)
    (wordOf_ne_nil rt (hsound.keyword_ne r hr)) hread)

/-- The one place at which the rule reads its keyword is the one that is marked. -/
theorem Working.cleared (h : Working rt rules original (a ++ k ++ b)) (hsound : Sound rt rows rules)
    (hsteady : ∀ r ∈ rules, HasSigma rt r → Steady rt rules original)
    {rule : AiPolicyRule} (hrule : rule ∈ rules) (hhit : Hit rt rule k)
    (hmarked : Working rt rules original (a ++ redacted.toList ++ b))
    {x u z : List (Char × List Char)} (hnotes : noteFor rt rule (a ++ k ++ b) = x ++ u ++ z)
    (hx : x.map Prod.fst = a) (hu : u.map Prod.fst = k) (hword : reading u = wordOf rt rule) :
    ¬ Reads rt rule (a ++ redacted.toList ++ b) := by
  obtain ⟨x', u', z', hold, hx', hu', -, hmark⟩ :=
    noteFor_marked rt (hsteady rule hrule) h.marked ⟨rule, hrule, hhit⟩
  have honce := h.once rule hrule
  have haligned := hmarked.aligned rule hrule
  have hlegible := noteFor_legible rt rule (a ++ redacted.toList ++ b)
  rw [hold] at honce hnotes
  rw [hmark] at haligned hlegible
  have hleft : x'.length = x.length := by
    simpa using congrArg List.length (hx'.trans hx.symm)
  have hmiddle : u'.length = u.length := by
    simpa using congrArg List.length (hu'.trans hu.symm)
  have hfront : x' ++ u' = x ++ u := (List.append_inj hnotes (by simp [hleft, hmiddle])).1
  have hpiece : u' = u := (List.append_inj hfront hleft).2
  unfold Reads
  rw [hmark]
  exact honce.not_infix_marked (hpiece ▸ hword) haligned hlegible
    (apart_noteFor rt (hsound.apart rule hrule)) (noteFor_redacted_ne rt rule)
    (wordOf_ne_nil rt (hsound.keyword_ne rule hrule))

end Turn

/-- A rule's turn keeps the text as the loop has it; its keyword is gone and none comes back. -/
theorem Working.step {s : String} (h : Working rt rules original s.toList)
    (hsound : Sound rt rows rules)
    (hsteady : ∀ r ∈ rules, HasSigma rt r → Steady rt rules original)
    {rule : AiPolicyRule} (hrule : rule ∈ rules) :
    Working rt rules original (transformStep rt rows s rule.toMatch).toList ∧
      ¬ Reads rt rule (transformStep rt rows s rule.toMatch).toList ∧
      ∀ r ∈ rules, ¬ Reads rt r s.toList →
        ¬ Reads rt r (transformStep rt rows s rule.toMatch).toList := by
  have hturn := transformStep_redact hsound.ids (hsound.row rule hrule) (hsound.kind rule hrule)
    (hsound.action rule hrule) (hsound.keyword_ne rule hrule) (h.aligned rule hrule)
  rcases hturn with ⟨x, k, z, hnotes, hword, hhit, hnext⟩ | ⟨hnone, hsame⟩
  · obtain ⟨hne, hclear⟩ := hsound.piece hrule hnotes hword
    have hs : s.toList = x.map Prod.fst ++ k.map Prod.fst ++ z.map Prod.fst := by
      rw [← map_fst_noteFor rt rule s.toList, hnotes, List.map_append, List.map_append]
    rw [hs] at h hnotes ⊢
    rw [hnext]
    have hmarked := h.mark hsound hsteady ⟨rule, hrule, hhit⟩ hne hclear
    refine ⟨hmarked, ?_, ?_⟩
    · exact h.cleared hsound hsteady hrule hhit hmarked hnotes rfl rfl hword
    · intro r hr hmiss
      exact h.not_reads_mark hsound hsteady ⟨rule, hrule, hhit⟩ hr hmiss
  · rw [hsame]
    exact ⟨h, hnone, fun _ _ hmiss => hmiss⟩

/-- After the loop the keywords of its rules are gone, and none came back. -/
theorem Working.foldl (hsound : Sound rt rows rules)
    (hsteady : ∀ r ∈ rules, HasSigma rt r → Steady rt rules original)
    {matched : List AiPolicyRule} (hmatched : ∀ rule ∈ matched, rule ∈ rules) {s : String}
    (h : Working rt rules original s.toList) :
    Working rt rules original
        ((matched.map AiPolicyRule.toMatch).foldl (transformStep rt rows) s).toList ∧
      ∀ r ∈ rules, (r ∈ matched ∨ ¬ Reads rt r s.toList) →
        ¬ Reads rt r
          ((matched.map AiPolicyRule.toMatch).foldl (transformStep rt rows) s).toList := by
  induction matched generalizing s with
  | nil =>
    refine ⟨h, ?_⟩
    rintro r hr (hmem | hmiss)
    · cases hmem
    · exact hmiss
  | cons rule matched ih =>
    obtain ⟨hnext, hgone, hkept⟩ := h.step hsound hsteady (hmatched rule List.mem_cons_self)
    obtain ⟨hlast, hclean⟩ := ih (fun r hr => hmatched r (List.mem_cons_of_mem rule hr)) hnext
    refine ⟨hlast, ?_⟩
    intro r hr hcase
    apply hclean r hr
    rcases hcase with hmem | hmiss
    · rcases List.mem_cons.mp hmem with rfl | hrest
      · exact .inr hgone
      · exact .inl hrest
    · exact .inr (hkept r hr hmiss)

/-! ### One content -/

theorem FoundOnce.working {c : List Char} (h : ∀ rule ∈ rules, FoundOnce rt rules rule c) :
    Working rt rules c c where
  marked := .refl _ _ _
  aligned rule hrule := (h rule hrule).aligned
  once rule hrule := (h rule hrule).once

/-- Letters that read as a keyword without a sigma are the keyword. -/
theorem hit_of_reading {rule : AiPolicyRule} (hsigma : ¬ HasSigma rt rule) {w : List Char}
    (hw : reading (noteFor rt rule w) = wordOf rt rule) : Hit rt rule w := by
  unfold Hit
  cases hcase : ignoreCase rule.conditionJson with
  | false =>
    rw [reading_noteFor_exact rt hcase] at hw
    simpa [wordOf, hcase] using hw
  | true =>
    rw [reading_noteFor_ignoring rt hcase, if_neg hsigma] at hw
    have hsame : (rt.letters.lowerChars w).map CaseTable.plainSigma = rt.letters.lowerChars w := by
      refine (List.map_congr_left fun e he => ?_).trans (List.map_id _)
      have hmem : CaseTable.plainSigma e ∈ wordOf rt rule := hw ▸ List.mem_map_of_mem he
      exact ((plainSigma_wordOf rt hcase hsigma _ hmem e).mp rfl).symm
    rw [hsame] at hw
    simpa [wordOf, hcase] using hw

/-- Where each letter reads as one, a keyword of as many letters is found by whole letters. -/
theorem FoundOnce.of_single {rule : AiPolicyRule} {c : List Char} (hsigma : ¬ HasSigma rt rule)
    (hlen : (wordOf rt rule).length = (keywordOf rt rule.conditionJson).length)
    (hsingle : Single (noteFor rt rule c)) (honce : NotTwice (wordOf rt rule) (noteFor rt rule c)) :
    FoundOnce rt rules rule c where
  aligned := by
    refine hsingle.aligned fun a k b hs hk => ?_
    have hpart : noteFor rt rule (k.map Prod.fst) = k := by
      have hall := map_fst_noteFor rt rule c
      rw [noteFor, if_neg hsigma] at hs ⊢
      obtain ⟨ak, z, rfl, hak, -⟩ := List.map_eq_append_iff.mp hs
      obtain ⟨x, y, rfl, -, rfl⟩ := List.map_eq_append_iff.mp hak
      simp
    refine ⟨hit_of_reading hsigma (by rw [hpart, hk]), ?_⟩
    have hk' : Single k := fun note hnote => hsingle note (by rw [hs]; simp [hnote])
    rw [← hlen, ← hk, hk'.length_reading]
  once := honce
  steady h := absurd h hsigma

/-- The text that is marked in its trimmed part is marked. -/
theorem redactedText_of_working {c text : String} (h : Working rt rules (strip c).toList text.toList)
    (hclean : ∀ rule ∈ rules, aiKeywordMatches rt rule.conditionJson text = false) :
    RedactedText rt rules c text := by
  obtain ⟨l, r, hl, hr, hc⟩ := exists_spaces c.toList
  have hstrip : stripChars c.toList = (strip c).toList := by simp [strip]
  refine ⟨hclean, l ++ text.toList ++ r, ?_, (stripChars_between hl hr text.toList).symm⟩
  rw [hc, hstrip]
  exact ((Marked.refl _ _ l).append h.marked).append (Marked.refl _ _ r)

/-- The transformed text is the content with its occurrences replaced. -/
theorem transformText_redacted (hsound : Sound rt rows rules) {matched : List AiPolicyRule}
    {c : String} (hfound : ∀ rule ∈ rules, FoundOnce rt rules rule (strip c).toList)
    (hmatched : ∀ rule ∈ matched, rule ∈ rules ∧
      aiKeywordMatches rt rule.conditionJson (strip c) = true)
    (hall : ∀ rule ∈ rules, aiKeywordMatches rt rule.conditionJson (strip c) = true →
      rule ∈ matched) (hsome : matched ≠ []) (hc : strip c ≠ "") :
    RedactedText rt rules c
      (transformText rt rows (strip c) .redact (matched.map AiPolicyRule.toMatch)) := by
  obtain ⟨hlast, hgone⟩ := Working.foldl hsound (fun r hr => (hfound r hr).steady)
    (fun r hr => (hmatched r hr).1) (FoundOnce.working hfound)
  have hclean : ∀ rule ∈ rules, aiKeywordMatches rt rule.conditionJson
      ((matched.map AiPolicyRule.toMatch).foldl (transformStep rt rows) (strip c)) = false := by
    intro rule hrule
    have hne := hsound.keyword_ne rule hrule
    have hcase : rule ∈ matched ∨ ¬ Reads rt rule (strip c).toList := by
      by_cases hmem : rule ∈ matched
      · exact .inl hmem
      · right
        rw [Reads, ← matches_iff_infix_reading rt hne]
        exact fun hocc => hmem (hall rule hrule hocc)
    rw [Bool.eq_false_iff]
    intro hocc
    exact hgone rule hrule hcase ((matches_iff_infix_reading rt hne).mp hocc)
  have hchanged : (matched.map AiPolicyRule.toMatch).foldl (transformStep rt rows) (strip c) ≠
      strip c := by
    intro heq
    obtain ⟨rule, hrule⟩ := List.exists_mem_of_ne_nil _ hsome
    have hmet := (hmatched rule hrule).2
    have hlost := hclean rule (hmatched rule hrule).1
    rw [heq, hmet] at hlost
    cases hlost
  have htext : transformText rt rows (strip c) .redact (matched.map AiPolicyRule.toMatch) =
      (matched.map AiPolicyRule.toMatch).foldl (transformStep rt rows) (strip c) := by
    simp [transformText, hc, hchanged]
  rw [htext]
  exact redactedText_of_working hlast hclean

end AiPolicy
