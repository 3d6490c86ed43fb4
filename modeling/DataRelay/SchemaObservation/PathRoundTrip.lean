import DataRelay.Protection.SelectorMarks
import DataRelay.SchemaObservation.PathWalker

/-! What the walk writes, the protection grammar reads back: the text of a path parses into
the selectors it spells, and its quoted members are recognised as such. -/
namespace SchemaObservation
open JsonPath Protection

/-- The text of one selector as the walk writes it; the walk writes no subscripts. -/
def selChars : Sel → List Char
  | .key k => memberChars k
  | .wild => ['[', ']']
  | .index _ => []

/-- A selector the walk writes and the grammar accepts: the literal member `[]` is out. -/
def Readable (s : Sel) : Prop := s = .wild ∨ ∃ k, s = .key k ∧ k ≠ "[]"

/-- Whether the walk quotes a selector. -/
def quotedSel : Sel → Bool
  | .key k => !isPlainMember k.toList
  | _ => false

/-- Where a selector may end: at the end of the path, or before the next selector. -/
def Boundary (rest : List Char) : Prop := ∀ c ∈ rest.head?, c = '.' ∨ c = '['

section Quoted

theorem hexValue_hexDigit : ∀ n < 16, hexValue (hexDigit n) = some n := by decide

theorem hexDigit_plain : ∀ n < 16, hexDigit n ≠ backslash ∧ hexDigit n ≠ singleQuote := by decide

theorem escapedCodepoint_control {n : ℕ} (hn : n < 32) (cs : List Char) :
    escapedCodepoint ('0' :: '0' :: hexDigit (n / 16) :: hexDigit (n % 16) :: cs) = .ok (n, cs) := by
  have hzero : hexValue '0' = some 0 := by decide
  have hhigh := hexValue_hexDigit (n / 16) (by omega)
  have hlow := hexValue_hexDigit (n % 16) (by omega)
  have hvalue : ((0 * 16 + 0) * 16 + n / 16) * 16 + n % 16 = n := by omega
  have hsmall : ¬ (0xD800 ≤ n ∧ n ≤ 0xDBFF) ∧ ¬ (0xDC00 ≤ n ∧ n ≤ 0xDFFF) := by omega
  simp only [escapedCodepoint, unicodeEscape, hzero, hhigh, hlow, hvalue, bind, Except.bind,
    hsmall.1, hsmall.2, ↓reduceIte]

/-- The escapes the walk writes are the ones the grammar undoes. -/
theorem readQuoted_encodeChar (c : Char) (fuel : ℕ) (cs : List Char) :
    readQuoted singleQuote (fuel + 1) (encodeChar c ++ cs) =
      (readQuoted singleQuote fuel cs).map fun r => (c :: r.1, r.2) := by
  have hchar {n : ℕ} (h : c.toNat = n) : Char.ofNat n = c := by rw [← h, Char.ofNat_toNat]
  have hslash : backslash ≠ singleQuote := by decide
  have hsimple {e d : Char} (h : simpleEscape e = some d) (hd : d = c) :
      readQuoted singleQuote (fuel + 1) (backslash :: e :: cs) =
        (readQuoted singleQuote fuel cs).map fun r => (c :: r.1, r.2) := by
    subst hd
    simp only [readQuoted, hslash, h, ↓reduceIte, not_true_eq_false, ne_eq]
    cases readQuoted singleQuote fuel cs <;> rfl
  unfold encodeChar
  split_ifs with h1 h2 h3 h4 h5 h6 h7 h8
  · exact hsimple (by decide) h1.symm
  · exact hsimple (by decide) h2.symm
  · exact hsimple (d := Char.ofNat 8) (by decide) (hchar h3)
  · exact hsimple (d := Char.ofNat 12) (by decide) (hchar h4)
  · exact hsimple (d := Char.ofNat 10) (by decide) (hchar h5)
  · exact hsimple (d := Char.ofNat 13) (by decide) (hchar h6)
  · exact hsimple (d := Char.ofNat 9) (by decide) (hchar h7)
  · have hu : simpleEscape 'u' = none := by decide
    simp only [List.cons_append, List.nil_append, readQuoted, hslash, hu, ↓reduceIte,
      not_true_eq_false, ne_eq, escapedCodepoint_control h8, bind, Except.bind, Char.ofNat_toNat]
    cases readQuoted singleQuote fuel cs <;> rfl
  · simp only [List.cons_append, List.nil_append, readQuoted, h1, h2, h8, ↓reduceIte, ne_eq,
      not_false_eq_true]
    cases readQuoted singleQuote fuel cs <;> rfl

/-- A quoted member is read back. -/
theorem readQuoted_encoded (key rest : List Char) {fuel : ℕ} (h : key.length < fuel) :
    readQuoted singleQuote fuel (key.flatMap encodeChar ++ singleQuote :: rest) =
      .ok (key, rest) := by
  induction key generalizing fuel with
  | nil =>
    obtain ⟨fuel, rfl⟩ := Nat.exists_eq_add_of_lt h
    simp [readQuoted]
  | cons c key ih =>
    obtain ⟨fuel, rfl⟩ := Nat.exists_eq_succ_of_ne_zero (Nat.ne_zero_of_lt h)
    rw [List.flatMap_cons, List.append_assoc, Nat.succ_eq_add_one, readQuoted_encodeChar,
      ih (Nat.succ_lt_succ_iff.mp h)]
    rfl

theorem length_le_encoded (key : List Char) : key.length ≤ (key.flatMap encodeChar).length := by
  have hone (c : Char) : 1 ≤ (encodeChar c).length := by
    unfold encodeChar
    split_ifs <;> simp
  induction key with
  | nil => simp
  | cons c key ih =>
    have := hone c
    simp only [List.flatMap_cons, List.length_append, List.length_cons]
    omega

theorem readQuotedKey_encoded {key : String} (hkey : key ≠ "[]") (rest : List Char) :
    readQuotedKey singleQuote (key.toList.flatMap encodeChar ++ singleQuote :: rest) =
      .ok (key, rest) := by
  have hlen : key.toList.length <
      (key.toList.flatMap encodeChar ++ singleQuote :: rest).length := by
    have := length_le_encoded key.toList
    simp only [List.length_append, List.length_cons]
    omega
  have hne : key.toList ≠ ['[', ']'] := by
    intro h
    exact hkey (String.toList_injective h)
  simp only [readQuotedKey, readQuoted_encoded _ _ hlen, hne, bind, Except.bind, pure, Except.pure,
    ↓reduceIte, String.ofList_toList]

theorem skipQuoted_encodeChar (c : Char) (cs : List Char) :
    skipQuoted singleQuote (encodeChar c ++ cs) = skipQuoted singleQuote cs := by
  unfold encodeChar
  split_ifs with h1 h2 h3 h4 h5 h6 h7 h8
  any_goals exact skipQuoted_escape _ _ _
  · have hzero : '0' ≠ backslash ∧ '0' ≠ singleQuote := by decide
    have hhigh := hexDigit_plain (c.toNat / 16) (by omega)
    have hlow := hexDigit_plain (c.toNat % 16) (by omega)
    simp only [List.cons_append, List.nil_append, skipQuoted_escape, skipQuoted_plain hzero,
      skipQuoted_plain hhigh, skipQuoted_plain hlow]
  · exact skipQuoted_plain ⟨h1, h2⟩ cs

/-- The scanner of quoted selectors skips the same text. -/
theorem skipQuoted_encoded (key rest : List Char) :
    skipQuoted singleQuote (key.flatMap encodeChar ++ singleQuote :: rest) = some rest := by
  induction key with
  | nil =>
    have hslash : singleQuote ≠ backslash := by decide
    rw [List.flatMap_nil, List.nil_append, skipQuoted.eq_def]
    simp [hslash]
  | cons c key ih => rw [List.flatMap_cons, List.append_assoc, skipQuoted_encodeChar, ih]

end Quoted

section Plain

theorem nameChar_of_plain {c : Char} (h : (isPlainStart c || isAsciiDigit c) = true) :
    nameChar c = true ∧ c ≠ ']' ∧ PyText.isSpace c = false := by
  have hrange : ('A' ≤ c ∧ c ≤ 'Z') ∨ ('a' ≤ c ∧ c ≤ 'z') ∨ c = '_' ∨ ('0' ≤ c ∧ c ≤ '9') := by
    simpa [isPlainStart, isAsciiDigit, or_assoc] using h
  have hnat : (65 ≤ c.toNat ∧ c.toNat ≤ 90) ∨ (97 ≤ c.toNat ∧ c.toNat ≤ 122) ∨ c.toNat = 95 ∨
      (48 ≤ c.toNat ∧ c.toNat ≤ 57) := by
    rcases hrange with h | h | rfl | h
    · exact .inl h
    · exact .inr (.inl h)
    · exact .inr (.inr (.inl rfl))
    · exact .inr (.inr (.inr h))
  have hne {d : Char} (hd : c.toNat ≠ d.toNat) : c ≠ d := fun he => hd (congrArg Char.toNat he)
  have hdot : ('.').toNat = 46 := rfl
  have hopen : ('[').toNat = 91 := rfl
  have hclose : (']').toNat = 93 := rfl
  refine ⟨?_, hne (by omega), ?_⟩
  · simp [nameChar, hne (d := '.') (by omega), hne (d := '[') (by omega)]
  · simp only [PyText.isSpace, Bool.or_eq_false_iff, Bool.and_eq_false_iff, decide_eq_false_iff_not,
      beq_eq_false_iff_ne]
    omega

theorem isPlainMember_all {key : List Char} (h : isPlainMember key = true) :
    key ≠ [] ∧ ∀ c ∈ key, (isPlainStart c || isAsciiDigit c) = true := by
  cases key with
  | nil => simp [isPlainMember] at h
  | cons c key =>
    simp only [isPlainMember, Bool.and_eq_true, List.all_eq_true] at h
    refine ⟨by simp, fun d hd => ?_⟩
    rcases List.mem_cons.mp hd with rfl | hd
    · simp [h.1]
    · exact h.2 d hd

/-- A plain member ends where the next selector starts. -/
theorem span_plain {key rest : List Char} (h : isPlainMember key = true) (hrest : Boundary rest) :
    (key ++ rest).takeWhile nameChar = key ∧ (key ++ rest).dropWhile nameChar = rest := by
  have hall : ∀ c ∈ key, nameChar c = true := fun c hc =>
    (nameChar_of_plain ((isPlainMember_all h).2 c hc)).1
  have hstop : rest.takeWhile nameChar = [] ∧ rest.dropWhile nameChar = rest := by
    cases rest with
    | nil => simp
    | cons c rest =>
      rcases hrest c (by simp) with rfl | rfl <;> simp [nameChar]
  constructor
  · rw [List.takeWhile_append_of_pos hall, hstop.1, List.append_nil]
  · rw [List.dropWhile_append_of_pos hall, hstop.2]

end Plain

theorem bracketSelector_quote (cs : List Char) :
    bracketSelector (singleQuote :: cs) =
      match readQuotedKey singleQuote cs with
      | .error e => .error e
      | .ok (member, ']' :: rest) => .ok (.key member, rest)
      | .ok _ => .error "Missing bracket after quoted Protection member" := rfl

/-- One selector is read back. -/
theorem nextSelector_selChars {s : Sel} (hs : Readable s) {rest : List Char}
    (hrest : Boundary rest) : nextSelector (selChars s ++ rest) = .ok (s, rest) := by
  rcases hs with rfl | ⟨k, rfl, hk⟩
  · simp [selChars, nextSelector, bracketSelector]
  · simp only [selChars, memberChars]
    split_ifs with hplain
    · obtain ⟨htake, hdrop⟩ := span_plain hplain hrest
      obtain ⟨hne, hall⟩ := isPlainMember_all hplain
      have hclose : ']' ∉ k.toList := fun hc => (nameChar_of_plain (hall _ hc)).2.1 rfl
      simp only [List.cons_append, nextSelector, htake, hdrop, String.ofList_toList]
      simp [hne, hclose]
    · have hread := readQuotedKey_encoded hk (']' :: rest)
      simp only [List.cons_append, List.nil_append, List.append_assoc, nextSelector,
        bracketSelector_quote, hread]

/-- Whether it is quoted is read back too. -/
theorem nextFlag_selChars {s : Sel} (hs : Readable s) {rest : List Char}
    (hrest : Boundary rest) : nextFlag (selChars s ++ rest) = .ok (quotedSel s, rest) := by
  rcases hs with rfl | ⟨k, rfl, -⟩
  · have hquote : isQuote ']' = false := by decide
    simp [selChars, nextFlag, quotedSel, hquote]
  · simp only [selChars, memberChars, quotedSel]
    split_ifs with hplain
    · simp [nextFlag, (span_plain hplain hrest).2, hplain]
    · have hquote : isQuote singleQuote = true := by decide
      simp [nextFlag, hquote, skipQuoted_encoded, hplain]

theorem selChars_boundary {s : Sel} (hs : Readable s) :
    ∃ c cs, selChars s = c :: cs ∧ (c = '.' ∨ c = '[') := by
  rcases hs with rfl | ⟨k, rfl, -⟩
  · exact ⟨_, _, rfl, .inr rfl⟩
  · simp only [selChars, memberChars]
    split_ifs
    · exact ⟨_, _, rfl, .inl rfl⟩
    · exact ⟨_, _, rfl, .inr rfl⟩

theorem selChars_getLast {s : Sel} (hs : Readable s) :
    ∃ c, (selChars s).getLast? = some c ∧ PyText.isSpace c = false := by
  rcases hs with rfl | ⟨k, rfl, -⟩
  · exact ⟨']', rfl, by decide⟩
  · simp only [selChars, memberChars]
    split_ifs with hplain
    · obtain ⟨hne, hall⟩ := isPlainMember_all hplain
      refine ⟨k.toList.getLast hne, ?_, ?_⟩
      · rw [List.getLast?_cons, List.getLast?_eq_getLast_of_ne_nil hne, Option.getD_some]
      · exact (nameChar_of_plain (hall _ (List.getLast_mem hne))).2.2
    · refine ⟨']', List.getLast?_eq_some_iff.mpr ?_, by decide⟩
      exact ⟨['[', singleQuote] ++ k.toList.flatMap encodeChar ++ [singleQuote], by simp⟩

/-- The text of a path after its `$`. -/
def selsChars (sels : List Sel) : List Char := sels.flatMap selChars

theorem boundary_selsChars {sels : List Sel} (h : ∀ s ∈ sels, Readable s) :
    Boundary (selsChars sels) := by
  cases sels with
  | nil => simp [selsChars, Boundary]
  | cons s sels =>
    obtain ⟨c, cs, hc, hd⟩ := selChars_boundary (h s (by simp))
    intro d hd'
    obtain rfl : c = d := by simpa [selsChars, hc] using hd'
    exact hd

/-- A token loop that reads every selector of the text reads the whole text. -/
theorem parseTokens_selsChars {sels : List Sel} (h : ∀ s ∈ sels, Readable s) {fuel : ℕ}
    (hfuel : (selsChars sels).length ≤ fuel) :
    parseTokens fuel (selsChars sels) = .ok sels ∧
      flagTokens fuel (selsChars sels) = .ok (sels.map quotedSel) := by
  induction sels generalizing fuel with
  | nil => simp [selsChars, parseTokens, flagTokens]
  | cons s sels ih =>
    have hs : Readable s := h s (by simp)
    have hsels : ∀ t ∈ sels, Readable t := fun t ht => h t (by simp [ht])
    obtain ⟨c, cs, hc, -⟩ := selChars_boundary hs
    have htext : selsChars (s :: sels) = c :: (cs ++ selsChars sels) := by simp [selsChars, hc]
    have hsel := nextSelector_selChars hs (boundary_selsChars hsels)
    have hflag := nextFlag_selChars hs (boundary_selsChars hsels)
    rw [hc, List.cons_append] at hsel hflag
    rw [htext] at hfuel ⊢
    cases fuel with
    | zero => simp at hfuel
    | succ fuel =>
      simp only [List.length_cons, List.length_append] at hfuel
      have hfuel : (selsChars sels).length ≤ fuel := by omega
      obtain ⟨hparse, hflags⟩ := ih hsels hfuel
      simp [parseTokens, flagTokens, hsel, hflag, hparse, hflags, bind, Except.bind, pure,
        Except.pure]

/-- The text of a path has nothing to strip. -/
theorem stripChars_path {sels : List Sel} (h : ∀ s ∈ sels, Readable s) :
    PyText.stripChars ('$' :: selsChars sels) = '$' :: selsChars sels := by
  have hdollar : PyText.isSpace '$' = false := by decide
  unfold PyText.stripChars
  rw [List.dropWhile_cons_of_neg (by simp [hdollar]), List.rdropWhile_eq_self_iff]
  intro hne
  rcases List.eq_nil_or_concat' sels with rfl | ⟨front, s, rfl⟩
  · simp [selsChars, hdollar]
  · obtain ⟨c, hc, hspace⟩ := selChars_getLast (h s (by simp))
    have hlast : ('$' :: selsChars (front ++ [s])).getLast? = some c := by
      simp [selsChars, List.getLast?_cons, List.getLast?_append, hc]
    rw [List.getLast_of_getLast?_eq_some hlast]
    simp [hspace]

/-- A path as the walk writes it parses into its selectors, and its flags tell the members
the walk quoted. -/
theorem parse_observed {path : String} {sels : List Sel}
    (hpath : path.toList = '$' :: selsChars sels) (h : ∀ s ∈ sels, Readable s) :
    parseProtectionPath path = .ok sels ∧
      quotedSelectorFlags path = .ok (sels.map quotedSel) := by
  have hchars : pathChars path = '$' :: selsChars sels := by
    simp [pathChars, hpath, stripChars_path h]
  have hread := parseTokens_selsChars h (Nat.le_succ (selsChars sels).length)
  constructor
  · simpa [parseProtectionPath, hchars, hpath, stripChars_path h] using hread.1
  · simpa [quotedSelectorFlags, hchars] using hread.2

/-- A step of the walk: into a member, or into the items of an array. -/
inductive WalkStep where
  | member (key : String)
  | array
  deriving DecidableEq

namespace WalkStep

/-- The path with one step more. -/
def extend (path : String) : WalkStep → String
  | .member key => appendFieldPath path key
  | .array => path ++ "[]"

def sel : WalkStep → Sel
  | .member key => .key key
  | .array => .wild

end WalkStep

/-- The path the walk builds for a sequence of steps. -/
def walkedPath (steps : List WalkStep) : String := steps.foldl WalkStep.extend "$"

theorem toList_extend (path : String) (step : WalkStep) :
    (step.extend path).toList = path.toList ++ selChars step.sel := by
  cases step with
  | member key => simp [WalkStep.extend, WalkStep.sel, selChars, appendFieldPath]
  | array => simp [WalkStep.extend, WalkStep.sel, selChars]

theorem toList_walkedPath (steps : List WalkStep) :
    (walkedPath steps).toList = '$' :: selsChars (steps.map WalkStep.sel) := by
  induction steps using List.reverseRecOn with
  | nil => rfl
  | append_singleton steps step ih =>
    unfold walkedPath at ih ⊢
    rw [List.foldl_append, List.foldl_cons, List.foldl_nil, toList_extend, ih]
    simp [selsChars]

theorem sel_injective : Function.Injective WalkStep.sel := by
  intro a b h
  cases a <;> cases b <;> simp_all [WalkStep.sel]

/-- The grammar reads a walked path back into its steps, so no two sequences share a path. -/
theorem walkedPath_round_trip {steps : List WalkStep}
    (h : ∀ key, .member key ∈ steps → key ≠ "[]") :
    parseProtectionPath (walkedPath steps) = .ok (steps.map WalkStep.sel) ∧
      ∀ others : List WalkStep, (∀ key, .member key ∈ others → key ≠ "[]") →
        walkedPath steps = walkedPath others → steps = others := by
  have hread : ∀ walked : List WalkStep, (∀ key, .member key ∈ walked → key ≠ "[]") →
      parseProtectionPath (walkedPath walked) = .ok (walked.map WalkStep.sel) := by
    intro walked hwalked
    refine (parse_observed (toList_walkedPath walked) ?_).1
    intro s hs
    obtain ⟨step, hstep, rfl⟩ := List.mem_map.mp hs
    cases step with
    | member key => exact .inr ⟨key, rfl, hwalked key hstep⟩
    | array => exact .inl rfl
  refine ⟨hread steps h, fun others hothers heq => ?_⟩
  have hsame : (.ok (steps.map WalkStep.sel) : Except String (List Sel)) =
      .ok (others.map WalkStep.sel) := by
    rw [← hread steps h, ← hread others hothers, heq]
  exact List.map_injective_iff.mpr sel_injective (Except.ok.inj hsame)

/-- Members with dots, quotes, brackets and backslashes. -/
def oddSteps : List WalkStep :=
  [.member "a.b", .array, .member "it's", .member "", .array, .array, .member "]\\['", .member "c"]

theorem oddSteps_round_trip :
    parseProtectionPath (walkedPath oddSteps) = .ok (oddSteps.map WalkStep.sel) ∧
      ∀ others : List WalkStep, (∀ key, .member key ∈ others → key ≠ "[]") →
        walkedPath oddSteps = walkedPath others → oddSteps = others := by
  refine walkedPath_round_trip ?_
  intro key hkey
  simp only [oddSteps, List.mem_cons, WalkStep.member.injEq, reduceCtorEq, List.not_mem_nil,
    or_false, false_or] at hkey
  rcases hkey with rfl | rfl | rfl | rfl | rfl <;> decide

end SchemaObservation
