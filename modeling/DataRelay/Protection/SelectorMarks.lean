import DataRelay.Protection.FieldPathParser

/-! The selectors of a path with the marks of the ones it writes in quotes. The scanner that
flags quoted selectors reads every accepted path the way the grammar does. -/
namespace Protection
open JsonPath

/-- A selector is quoted when a quote follows its bracket. -/
def startsQuoted : List Char → Bool
  | '[' :: c :: _ => isQuote c
  | _ => false

/-- The token loop of the grammar, with the mark of each selector. -/
def markedTokens : (fuel : ℕ) → List Char → Except String (List (Sel × Bool))
  | _, [] => .ok []
  | 0, _ => .error "Invalid Protection field path selector"
  | fuel + 1, c :: cs => do
    let (sel, rest) ← nextSelector (c :: cs)
    let sels ← markedTokens fuel rest
    return (sel, startsQuoted (c :: cs)) :: sels

/-- The selectors of a path, each with whether the path quotes it. -/
def markedSelectors (path : String) : Except String (List (Sel × Bool)) :=
  if (PyText.stripChars path.toList).isEmpty then .ok []
  else markedTokens (pathChars path).length ((pathChars path).drop 1)

section Escapes

theorem skipQuoted_escape (quote c : Char) (cs : List Char) :
    skipQuoted quote (backslash :: c :: cs) = skipQuoted quote cs := by
  rw [skipQuoted.eq_def]
  simp

theorem skipQuoted_plain {quote c : Char} (hc : c ≠ backslash ∧ c ≠ quote) (cs : List Char) :
    skipQuoted quote (c :: cs) = skipQuoted quote cs := by
  rw [skipQuoted.eq_def]
  simp [hc]

theorem isQuote_ne_backslash {quote : Char} (h : isQuote quote = true) : quote ≠ backslash := by
  rintro rfl
  exact absurd h (by decide)

theorem hexValue_plain {quote c : Char} {n : ℕ} (hquote : isQuote quote = true)
    (h : hexValue c = some n) : c ≠ backslash ∧ c ≠ quote := by
  constructor
  · rintro rfl
    have hnone : hexValue backslash = none := by decide
    rw [hnone] at h
    cases h
  · rintro rfl
    simp only [isQuote, Bool.or_eq_true, decide_eq_true_eq] at hquote
    rcases hquote with rfl | rfl
    · have hnone : hexValue singleQuote = none := by decide
      rw [hnone] at h
      cases h
    · have hnone : hexValue doubleQuote = none := by decide
      rw [hnone] at h
      cases h

variable {quote : Char} {cs rest : List Char}

/-- The four digits of an escape close no quote. -/
theorem skipQuoted_unicodeEscape (hquote : isQuote quote = true) {n : ℕ}
    (h : unicodeEscape cs = .ok (n, rest)) : skipQuoted quote cs = skipQuoted quote rest := by
  unfold unicodeEscape at h
  split at h
  · next a b c d tail =>
    split at h
    · next va vb vc vd ha hb hc hd =>
      simp only [Except.ok.injEq, Prod.mk.injEq] at h
      rw [skipQuoted_plain (hexValue_plain hquote ha), skipQuoted_plain (hexValue_plain hquote hb),
        skipQuoted_plain (hexValue_plain hquote hc), skipQuoted_plain (hexValue_plain hquote hd),
        h.2]
    · cases h
  · cases h

theorem skipQuoted_escapedCodepoint (hquote : isQuote quote = true) {n : ℕ}
    (h : escapedCodepoint cs = .ok (n, rest)) : skipQuoted quote cs = skipQuoted quote rest := by
  unfold escapedCodepoint at h
  simp only [bind, Except.bind] at h
  split at h
  · cases h
  · next first hfirst =>
    obtain ⟨cp, tail⟩ := first
    rw [skipQuoted_unicodeEscape hquote hfirst]
    simp only at h
    split_ifs at h
    · split at h
      · next b u low =>
        split_ifs at h with hslash
        obtain ⟨rfl, rfl⟩ := hslash
        split at h
        · cases h
        · next second hsecond =>
          obtain ⟨lo, tail'⟩ := second
          split_ifs at h
          simp only [Except.ok.injEq, Prod.mk.injEq] at h
          rw [skipQuoted_escape, skipQuoted_unicodeEscape hquote hsecond, h.2]
      · cases h
    · simp only [Except.ok.injEq, Prod.mk.injEq] at h
      rw [h.2]

/-- A quoted member ends for both scanners at the same quote. -/
theorem skipQuoted_of_readQuoted (hquote : isQuote quote = true) {fuel : ℕ} {value : List Char}
    (h : readQuoted quote fuel cs = .ok (value, rest)) : skipQuoted quote cs = some rest := by
  induction fuel generalizing cs value with
  | zero => cases cs <;> cases h
  | succ fuel ih =>
    cases cs with
    | nil => cases h
    | cons c cs =>
      simp only [readQuoted] at h
      by_cases hclose : c = quote
      · subst hclose
        rw [if_pos rfl] at h
        simp only [Except.ok.injEq, Prod.mk.injEq] at h
        rw [skipQuoted.eq_def]
        simp [isQuote_ne_backslash hquote, h.2]
      · rw [if_neg hclose] at h
        by_cases hslash : c = backslash
        · subst hslash
          rw [if_neg (by simp)] at h
          cases cs with
          | nil => cases h
          | cons esc cs =>
            rw [skipQuoted_escape]
            simp only at h
            split at h
            · simp only [bind, Except.bind] at h
              split at h
              · cases h
              · next r hr =>
                simp only [pure, Except.pure, Except.ok.injEq, Prod.mk.injEq] at h
                exact ih (hr.trans (by rw [← h.2]))
            · split_ifs at h
              simp only [bind, Except.bind] at h
              split at h
              · cases h
              · next esc' hesc =>
                obtain ⟨cp, tail⟩ := esc'
                split at h
                · cases h
                · next r hr =>
                  simp only [pure, Except.pure, Except.ok.injEq, Prod.mk.injEq] at h
                  rw [skipQuoted_escapedCodepoint hquote hesc]
                  exact ih (hr.trans (by rw [← h.2]))
        · rw [if_pos hslash] at h
          rw [skipQuoted_plain ⟨hslash, hclose⟩]
          split_ifs at h
          simp only [bind, Except.bind] at h
          split at h
          · cases h
          · next r hr =>
            simp only [pure, Except.pure, Except.ok.injEq, Prod.mk.injEq] at h
            exact ih (hr.trans (by rw [← h.2]))

end Escapes

/-- A bracket that is not followed by a quote ends at the first closing bracket. -/
theorem nextFlag_bare {c : Char} {cs : List Char} (hc : isQuote c = false) (hmem : ']' ∈ c :: cs) :
    nextFlag ('[' :: c :: cs) =
      .ok (startsQuoted ('[' :: c :: cs), ((c :: cs).dropWhile (· ≠ ']')).drop 1) := by
  simp only [nextFlag, startsQuoted, hc, hmem, Bool.false_eq_true, ↓reduceIte]

theorem nextFlag_of_bareSelector {c : Char} {cs rest : List Char} {sel : Sel}
    (hc : isQuote c = false) (h : bareSelector (c :: cs) = .ok (sel, rest)) :
    nextFlag ('[' :: c :: cs) = .ok (startsQuoted ('[' :: c :: cs), rest) := by
  unfold bareSelector at h
  by_cases hmem : ']' ∈ c :: cs
  case neg => simp [hmem] at h
  rw [if_neg (not_not.mpr hmem)] at h
  rw [nextFlag_bare hc hmem]
  simp only at h
  split at h
  · simp only [Except.ok.injEq, Prod.mk.injEq] at h
    rw [h.2]
  · split_ifs at h
    simp only [Except.ok.injEq, Prod.mk.injEq] at h
    rw [h.2]

/-- A quoted member is flagged as one. -/
theorem nextFlag_of_readQuotedKey {c : Char} {cs rest : List Char} {member : String}
    (hc : isQuote c = true) (h : readQuotedKey c cs = .ok (member, ']' :: rest)) :
    nextFlag ('[' :: c :: cs) = .ok (true, rest) := by
  unfold readQuotedKey at h
  simp only [bind, Except.bind] at h
  split at h
  · cases h
  · next r hr =>
    split_ifs at h
    simp only [pure, Except.pure, Except.ok.injEq, Prod.mk.injEq] at h
    have hskip : skipQuoted c cs = some (']' :: rest) :=
      skipQuoted_of_readQuoted hc (hr.trans (by rw [← h.2]))
    simp [nextFlag, hc, hskip]

/-- One selector is flagged as it is marked, and both scanners go on from the same place. -/
theorem nextFlag_of_nextSelector {cs rest : List Char} {sel : Sel}
    (h : nextSelector cs = .ok (sel, rest)) : nextFlag cs = .ok (startsQuoted cs, rest) := by
  unfold nextSelector at h
  split at h
  · next cs =>
    simp only at h
    split_ifs at h
    simp only [Except.ok.injEq, Prod.mk.injEq] at h
    simp [nextFlag, startsQuoted, h.2]
  · next cs =>
    have hclose : isQuote ']' = false := by decide
    have hstar : isQuote '*' = false := by decide
    have hcolon : isQuote ':' = false := by decide
    unfold bracketSelector at h
    split at h
    · simp only [Except.ok.injEq, Prod.mk.injEq] at h
      rw [nextFlag_bare hclose (by simp)]
      simp [h.2]
    · simp only [Except.ok.injEq, Prod.mk.injEq] at h
      rw [nextFlag_bare hstar (by simp)]
      simp [h.2]
    · simp only [Except.ok.injEq, Prod.mk.injEq] at h
      rw [nextFlag_bare hcolon (by simp)]
      simp [h.2]
    · simp only [Except.ok.injEq, Prod.mk.injEq] at h
      rw [nextFlag_bare hcolon (by simp)]
      simp [h.2]
    · next c tail _ _ _ _ =>
      cases hq : isQuote c with
      | false =>
        rw [hq] at h
        exact nextFlag_of_bareSelector hq h
      | true =>
        rw [hq, if_pos rfl] at h
        split at h
        · cases h
        · next member after hread =>
          simp only [Except.ok.injEq, Prod.mk.injEq] at h
          obtain ⟨-, rfl⟩ := h
          rw [nextFlag_of_readQuotedKey hq hread, startsQuoted, hq]
        · cases h
    · cases h
  · cases h

theorem markedTokens_of_parseTokens {fuel : ℕ} {cs : List Char} {segments : List Sel}
    (h : parseTokens fuel cs = .ok segments) :
    ∃ z, markedTokens fuel cs = .ok z ∧ z.map Prod.fst = segments ∧
      flagTokens fuel cs = .ok (z.map Prod.snd) := by
  induction fuel generalizing cs segments with
  | zero =>
    cases cs with
    | nil =>
      cases h
      exact ⟨[], rfl, rfl, rfl⟩
    | cons c cs => cases h
  | succ fuel ih =>
    cases cs with
    | nil =>
      cases h
      exact ⟨[], rfl, rfl, rfl⟩
    | cons c cs =>
      simp only [parseTokens, bind, Except.bind] at h
      split at h
      · cases h
      · next first hfirst =>
        obtain ⟨sel, rest⟩ := first
        split at h
        · cases h
        · next sels hsels =>
          simp only [pure, Except.pure, Except.ok.injEq] at h
          subst h
          obtain ⟨z, hz, hmap, hflags⟩ := ih hsels
          refine ⟨(sel, startsQuoted (c :: cs)) :: z, ?_, by rw [List.map_cons, hmap], ?_⟩
          · simp only [markedTokens, hfirst, hz, bind, Except.bind, pure, Except.pure]
          · simp only [flagTokens, nextFlag_of_nextSelector hfirst, hflags, bind, Except.bind, pure,
              Except.pure, List.map_cons]

/-- Every accepted path has its marks, and they are the flags unless the path is empty. -/
theorem markedSelectors_of_parse {path : String} {segments : List Sel}
    (h : parseProtectionPath path = .ok segments) :
    ∃ z, markedSelectors path = .ok z ∧ z.map Prod.fst = segments ∧
      (segments ≠ [] → quotedSelectorFlags path = .ok (z.map Prod.snd)) := by
  unfold parseProtectionPath at h
  unfold markedSelectors
  split_ifs at h ⊢ with hempty
  · cases h
    exact ⟨[], rfl, rfl, fun hne => absurd rfl hne⟩
  · obtain ⟨z, hz, hmap, hflags⟩ := markedTokens_of_parseTokens h
    exact ⟨z, hz, hmap, fun _ => hflags⟩

theorem parseTokens_of_markedTokens {fuel : ℕ} {cs : List Char} {z : List (Sel × Bool)}
    (h : markedTokens fuel cs = .ok z) : parseTokens fuel cs = .ok (z.map Prod.fst) := by
  induction fuel generalizing cs z with
  | zero =>
    cases cs with
    | nil =>
      cases h
      rfl
    | cons c cs => cases h
  | succ fuel ih =>
    cases cs with
    | nil =>
      cases h
      rfl
    | cons c cs =>
      simp only [markedTokens, bind, Except.bind] at h
      split at h
      · cases h
      · next first hfirst =>
        obtain ⟨sel, rest⟩ := first
        split at h
        · cases h
        · next sels hsels =>
          simp only [pure, Except.pure, Except.ok.injEq] at h
          subst h
          simp only [parseTokens, hfirst, ih hsels, bind, Except.bind, pure, Except.pure,
            List.map_cons]

/-- Marking a path accepts what parsing it accepts. -/
theorem parse_of_markedSelectors {path : String} {z : List (Sel × Bool)}
    (h : markedSelectors path = .ok z) : parseProtectionPath path = .ok (z.map Prod.fst) := by
  unfold markedSelectors at h
  unfold parseProtectionPath
  split_ifs at h ⊢
  · cases h
    rfl
  · exact parseTokens_of_markedTokens h

end Protection
