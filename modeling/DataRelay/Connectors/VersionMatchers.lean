import DataRelay.Connectors.Requirements

/-! The two readings of a version requirement: the one of the install check and the one of the
registry loader, and the requirements on which they differ. -/
namespace Connectors
open PyText

/-- What a check makes of a version and a requirement. -/
inductive Verdict where
  | accept
  | reject
  | invalid
  deriving DecidableEq, Repr

def Verdict.of {ε : Type} : Except ε Bool → Verdict
  | .ok true => .accept
  | .ok false => .reject
  | .error _ => .invalid

/-- The errors of `packaging`: `InvalidVersion` and `InvalidSpecifier`. -/
inductive PackagingError where
  | invalidVersion
  | invalidSpecifier
  deriving DecidableEq, Repr

def comparisonOperators : List (List Char) :=
  ["~=", "==", "!=", "<=", ">=", "<", ">", "==="].map String.toList

/-- `any(raw.startswith(op) for op in (...))`. -/
def startsWithOperator (raw : List Char) : Bool := comparisonOperators.any (·.isPrefixOf raw)

variable (pk : Packaging) (repr : String → String)

/-- `_dependency_version_matches`. -/
def dependencyVersionMatches (version requirement : String) : Except PackagingError Bool :=
  match pk.version version with
  | none => .error .invalidVersion
  | some parsed =>
    let raw := strip requirement
    if raw = "" then .ok true
    else
      let text := if startsWithOperator raw.toList then normalizedSpecifier raw else "==" ++ raw
      match pk.specifierSet text with
      | none => .error .invalidSpecifier
      | some spec => .ok (pk.contains spec parsed)

/-- The clauses of a specifier set: cut at the commas and stripped, the blank ones left out. -/
def clauses (text : List Char) : List (List Char) :=
  ((text.splitOnP (· = ',')).map stripChars).filter (· ≠ [])

/-- Every clause of a specifier set is an operator with something behind it. -/
structure ClausesCompare : Prop where
  operator : ∀ text, (pk.specifierSet text).isSome → ∀ clause ∈ clauses text.toList,
    startsWithOperator clause = true
  operand : ∀ text, (pk.specifierSet text).isSome → ['=', '='] ∉ clauses text.toList

/-- Both checks give the same verdict. -/
def MatchersAgree (version requirement : String) : Prop :=
  Verdict.of (versionSatisfiesRequirement pk repr version requirement) =
    Verdict.of (dependencyVersionMatches pk version requirement)

/-- The empty specifier set contains the version. -/
def BlankAccepts (version : String) : Prop :=
  ∃ spec ∈ pk.specifierSet "", ∃ parsed ∈ pk.version version, pk.contains spec parsed = true

/-- Where a requirement does not open with an operator, the reading that could make something of
it does not either: the loader's, which puts `==` in front, or behind a leading comma the one of
the install check, which drops the comma. -/
def NoReading (requirement : String) : Prop :=
  if (strip requirement).toList.head? = some ',' then
    pk.specifierSet (normalizedSpecifier requirement) = none
  else pk.specifierSet ("==" ++ strip requirement) = none

/-- What it takes for the two readings to come to one verdict. -/
def ReadAlike (version requirement : String) : Prop :=
  pk.version version = none ∨
    (if strip requirement = "" then BlankAccepts pk version
    else startsWithOperator (strip requirement).toList = true ∨ NoReading pk requirement)

/-! ### Cutting into words -/

theorem words_of_space {c : Char} (hc : isSpace c = true) (cs : List Char) :
    words (c :: cs) = words cs := by
  unfold words
  rw [List.splitOnP_cons_eq_if_modifyHead, if_pos hc]
  simp

theorem words_append_space {c : Char} (hc : isSpace c = true) (cs : List Char) :
    words (cs ++ [c]) = words cs := by
  unfold words
  rw [List.splitOnP_append_cons cs [] hc]
  simp

/-- The comma counts as a space. -/
def spaced (cs : List Char) : List Char := cs.map fun c => if c = ',' then ' ' else c

theorem isSpace_spaced {c : Char} (hc : isSpace c = true) :
    isSpace (if c = ',' then ' ' else c) = true := by
  split_ifs
  · decide
  · exact hc

/-- Blanks around a specifier do not matter. -/
theorem words_spaced_stripChars (cs : List Char) : words (spaced (stripChars cs)) = words (spaced cs) := by
  have hfront (l : List Char) : words (spaced (l.dropWhile isSpace)) = words (spaced l) := by
    induction l with
    | nil => rfl
    | cons c l ih =>
      by_cases hc : isSpace c = true
      · rw [List.dropWhile_cons_of_pos hc, ih]
        exact (words_of_space (isSpace_spaced hc) _).symm
      · rw [List.dropWhile_cons_of_neg hc]
  have hback (l : List Char) : words (spaced (l.rdropWhile isSpace)) = words (spaced l) := by
    induction l using List.reverseRecOn with
    | nil => rfl
    | append_singleton l c ih =>
      by_cases hc : isSpace c = true
      · rw [List.rdropWhile_concat_pos _ _ _ hc, ih]
        unfold spaced
        rw [List.map_append, List.map_singleton]
        exact (words_append_space (isSpace_spaced hc) _).symm
      · rw [List.rdropWhile_concat_neg _ _ _ hc]
  unfold stripChars
  rw [hback, hfront]

theorem normalizedSpecifier_strip (requirement : String) :
    normalizedSpecifier (strip requirement) = normalizedSpecifier requirement := by
  have hwords := words_spaced_stripChars requirement.toList
  unfold spaced at hwords
  unfold normalizedSpecifier strip
  rw [String.toList_ofList, hwords]

/-- The first word of a text that opens with no blank is a front of it without blanks. -/
theorem words_cons {c : Char} (hc : isSpace c = false) (cs : List Char) :
    ∃ word rest, words (c :: cs) = word :: rest ∧ word ≠ [] ∧ word <+: c :: cs ∧
      ∀ d ∈ word, isSpace d = false := by
  have hclean : ∀ d ∈ c :: cs.takeWhile (!isSpace ·), isSpace d = false := by
    intro d hd
    rcases List.mem_cons.mp hd with rfl | hd
    · exact hc
    · simpa using List.mem_takeWhile_imp hd
  have hpre : c :: cs.takeWhile (!isSpace ·) <+: c :: cs :=
    (List.cons_prefix_cons).mpr ⟨rfl, List.takeWhile_prefix _⟩
  have hsplit : cs = cs.takeWhile (!isSpace ·) ++ cs.dropWhile (!isSpace ·) :=
    (List.takeWhile_append_dropWhile).symm
  cases hrest : cs.dropWhile (!isSpace ·) with
  | nil =>
    rw [hrest, List.append_nil] at hsplit
    refine ⟨_, [], ?_, List.cons_ne_nil _ _, hpre, hclean⟩
    unfold words
    rw [← hsplit] at hclean ⊢
    rw [List.splitOnP_eq_singleton hclean]
    simp
  | cons d rest =>
    have hd : isSpace d = true := by
      have hhead := List.head?_dropWhile_not (fun x => !isSpace x) cs
      rw [hrest] at hhead
      simpa using hhead
    refine ⟨_, words rest, ?_, List.cons_ne_nil _ _, hpre, hclean⟩
    have hcons : c :: cs = (c :: cs.takeWhile (!isSpace ·)) ++ d :: rest := by
      rw [List.cons_append, ← hrest, ← hsplit]
    unfold words
    rw [hcons, List.splitOnP_append_cons_of_forall_mem hclean d hd]
    simp

/-- What is left of the first word when the commas come back: it had none. -/
theorem prefix_of_spaced {word cs : List Char} (hpre : word <+: spaced cs)
    (hclean : ∀ d ∈ word, isSpace d = false) : word <+: cs ∧ ',' ∉ word := by
  induction word generalizing cs with
  | nil => exact ⟨List.nil_prefix, by simp⟩
  | cons w word ih =>
    cases cs with
    | nil => simp [spaced] at hpre
    | cons c cs =>
      unfold spaced at hpre
      rw [List.map_cons, List.cons_prefix_cons] at hpre
      obtain ⟨hw, htail⟩ := hpre
      have hcomma : c ≠ ',' := by
        rintro rfl
        have hspace := hclean w (by simp)
        rw [hw] at hspace
        exact absurd hspace (by decide)
      rw [if_neg hcomma] at hw
      subst hw
      obtain ⟨hrest, hnone⟩ := ih htail fun d hd => hclean d (List.mem_cons_of_mem _ hd)
      refine ⟨(List.cons_prefix_cons).mpr ⟨rfl, hrest⟩, ?_⟩
      simp only [List.mem_cons, not_or]
      exact ⟨Ne.symm hcomma, hnone⟩

theorem stripChars_clean {word : List Char} (hclean : ∀ d ∈ word, isSpace d = false) :
    stripChars word = word := by
  apply stripChars_eq_self
  · intro d hd
    exact hclean d (List.mem_of_mem_head? hd)
  · intro d hd
    exact hclean d (List.mem_of_mem_getLast? hd)

/-- The text up to the first comma, stripped, is a clause. -/
theorem mem_clauses_head {word : List Char} (hne : word ≠ []) (hcomma : ',' ∉ word)
    (hclean : ∀ d ∈ word, isSpace d = false) (rest : List (List Char)) :
    word ∈ clauses ([','].intercalate (word :: rest)) := by
  have hfree : ∀ d ∈ word, decide (d = ',') = false := by
    intro d hd
    rw [decide_eq_false_iff_not]
    rintro rfl
    exact hcomma hd
  have hhead : word ∈ ([','].intercalate (word :: rest)).splitOnP (· = ',') := by
    cases rest with
    | nil =>
      rw [List.intercalate_singleton, List.splitOnP_eq_singleton hfree]
      exact List.mem_singleton_self _
    | cons r rest =>
      rw [List.intercalate_cons_cons, List.append_assoc, List.singleton_append,
        List.splitOnP_append_cons_of_forall_mem hfree ',' (by simp)]
      exact List.mem_cons_self
  unfold clauses
  rw [List.mem_filter]
  refine ⟨List.mem_map.mpr ⟨word, hhead, stripChars_clean hclean⟩, ?_⟩
  simpa using hne

/-! ### Where the readings part -/

section Readings

variable {pk} {repr} {version requirement : String}

theorem head_strip_not_space {c : Char} (h : (strip requirement).toList.head? = some c) :
    isSpace c = false := by
  unfold strip at h
  rw [String.toList_ofList] at h
  have hidem := stripChars_idem requirement.toList
  cases hs : stripChars requirement.toList with
  | nil => simp [hs] at h
  | cons d cs =>
    rw [hs] at h hidem
    obtain rfl : d = c := by simpa using h
    by_contra hspace
    rw [Bool.not_eq_false] at hspace
    have hlen := congrArg List.length hidem
    unfold stripChars at hlen
    rw [List.dropWhile_cons_of_pos hspace, List.length_cons] at hlen
    have hback := (List.rdropWhile_prefix isSpace (cs.dropWhile isSpace)).length_le
    have hfront := (List.dropWhile_suffix (l := cs) isSpace).length_le
    omega

/-- Without an operator in front and without a leading comma the install check reads nothing. -/
theorem specifierSet_normalized_of_bare (h : ClausesCompare pk) (hne : strip requirement ≠ "")
    (hop : startsWithOperator (strip requirement).toList = false)
    (hcomma : (strip requirement).toList.head? ≠ some ',') :
    pk.specifierSet (normalizedSpecifier requirement) = none := by
  by_contra hvalid
  rw [← normalizedSpecifier_strip] at hvalid
  cases hraw : (strip requirement).toList with
  | nil =>
    apply hne
    rw [← String.ofList_toList (s := strip requirement), hraw]
  | cons c cs =>
    have hc : isSpace c = false := head_strip_not_space (by rw [hraw]; rfl)
    have hspaced : spaced (c :: cs) = c :: spaced cs := by
      unfold spaced
      rw [List.map_cons, if_neg]
      rintro rfl
      exact hcomma (by rw [hraw]; rfl)
    obtain ⟨word, rest, hwords, hword, hpre, hclean⟩ := words_cons hc (spaced cs)
    rw [← hspaced] at hwords hpre
    obtain ⟨hfront, hfree⟩ := prefix_of_spaced hpre hclean
    have htext : (normalizedSpecifier (strip requirement)).toList =
        [','].intercalate (word :: rest) := by
      rw [← hwords]
      unfold normalizedSpecifier spaced
      rw [hraw, String.toList_ofList]
    have hmem : word ∈ clauses (normalizedSpecifier (strip requirement)).toList := by
      rw [htext]
      exact mem_clauses_head hword hfree hclean rest
    have hstart := h.operator _ (Option.isSome_iff_ne_none.mpr hvalid) word hmem
    unfold startsWithOperator at hstart hop
    rw [List.any_eq_true] at hstart
    obtain ⟨op, hop', hpre⟩ := hstart
    rw [List.any_eq_false] at hop
    apply hop op hop'
    rw [List.isPrefixOf_iff_prefix] at hpre ⊢
    rw [hraw]
    exact hpre.trans hfront

/-- Behind `==` a leading comma leaves nothing to compare with. -/
theorem specifierSet_equals_of_comma (h : ClausesCompare pk)
    (hcomma : (strip requirement).toList.head? = some ',') :
    pk.specifierSet ("==" ++ strip requirement) = none := by
  by_contra hvalid
  cases hraw : (strip requirement).toList with
  | nil => simp [hraw] at hcomma
  | cons c cs =>
    obtain rfl : c = ',' := by simpa [hraw] using hcomma
    apply h.operand _ (Option.isSome_iff_ne_none.mpr hvalid)
    have htext : ("==" ++ strip requirement).toList = ['=', '='] ++ ',' :: cs := by
      rw [String.toList_append, hraw]
      rfl
    unfold clauses
    rw [htext, List.splitOnP_append_cons_of_forall_mem (by simp) ',' (by simp)]
    rw [List.mem_filter]
    refine ⟨List.mem_map.mpr ⟨['=', '='], List.mem_cons_self, by decide⟩, by simp⟩

theorem verdict_install {parsed : pk.Version} (hv : pk.version version = some parsed) :
    Verdict.of (versionSatisfiesRequirement pk repr version requirement) =
      match pk.specifierSet (normalizedSpecifier requirement) with
      | none => .invalid
      | some spec => if pk.contains spec parsed then .accept else .reject := by
  unfold versionSatisfiesRequirement versionInSpecifier
  rw [hv]
  simp only
  cases pk.specifierSet (normalizedSpecifier requirement) with
  | none => rfl
  | some spec =>
    simp only
    cases pk.contains spec parsed <;> rfl

end Readings

/-- The install check and the loader give the same verdict on exactly the requirements they read
alike. -/
theorem matchers_agree_iff (h : ClausesCompare pk) (version requirement : String) :
    MatchersAgree pk repr version requirement ↔ ReadAlike pk version requirement := by
  unfold MatchersAgree ReadAlike
  cases hv : pk.version version with
  | none =>
    simp only [versionSatisfiesRequirement, versionInSpecifier, dependencyVersionMatches, hv]
    simp [Verdict.of]
  | some parsed =>
    rw [verdict_install hv]
    unfold dependencyVersionMatches
    simp only [hv, reduceCtorEq, false_or]
    by_cases hblank : strip requirement = ""
    · have hempty : normalizedSpecifier requirement = "" := by
        rw [← normalizedSpecifier_strip, hblank]
        decide
      rw [hempty, if_pos hblank, if_pos hblank]
      unfold BlankAccepts
      rw [hv]
      cases pk.specifierSet "" with
      | none => simp [Verdict.of]
      | some spec => cases hc : pk.contains spec parsed <;> simp [Verdict.of, hc]
    · rw [if_neg hblank, if_neg hblank]
      cases hop : startsWithOperator (strip requirement).toList with
      | true =>
        simp only [↓reduceIte, true_or, iff_true, normalizedSpecifier_strip]
        cases pk.specifierSet (normalizedSpecifier requirement) with
        | none => rfl
        | some spec =>
          simp only
          cases pk.contains spec parsed <;> rfl
      | false =>
        simp only [Bool.false_eq_true, ↓reduceIte, false_or, NoReading]
        by_cases hcomma : (strip requirement).toList.head? = some ','
        · rw [specifierSet_equals_of_comma h hcomma, if_pos hcomma]
          cases pk.specifierSet (normalizedSpecifier requirement) with
          | none => simp [Verdict.of]
          | some spec => cases hc : pk.contains spec parsed <;> simp [Verdict.of, hc]
        · rw [specifierSet_normalized_of_bare h hblank hop hcomma, if_neg hcomma]
          cases pk.specifierSet ("==" ++ strip requirement) with
          | none => simp [Verdict.of]
          | some spec => cases hc : pk.contains spec parsed <;> simp [Verdict.of, hc]

/-! ### Plain release numbers compare -/

theorem rdropWhile_of_front {op : List Char} (hclean : ∀ d ∈ op, isSpace d = false)
    (tail : List Char) :
    (op ++ tail).rdropWhile isSpace = op ++ tail.rdropWhile isSpace := by
  induction tail using List.reverseRecOn with
  | nil =>
    rw [List.append_nil, List.rdropWhile_nil, List.append_nil, List.rdropWhile_eq_self_iff]
    intro hl
    simpa using hclean _ (List.getLast_mem hl)
  | append_singleton tail c ih =>
    rw [← List.append_assoc]
    by_cases hc : isSpace c = true
    · rw [List.rdropWhile_concat_pos _ _ _ hc, List.rdropWhile_concat_pos _ _ _ hc, ih]
    · rw [List.rdropWhile_concat_neg _ _ _ hc, List.rdropWhile_concat_neg _ _ _ hc,
        List.append_assoc]

theorem stripChars_of_front {op : List Char} (hne : op ≠ [])
    (hclean : ∀ d ∈ op, isSpace d = false) (tail : List Char) :
    stripChars (op ++ tail) = op ++ tail.rdropWhile isSpace := by
  have hfront : (op ++ tail).dropWhile isSpace = op ++ tail := by
    cases op with
    | nil => exact absurd rfl hne
    | cons c op => exact List.dropWhile_cons_of_neg (by simp [hclean c])
  unfold stripChars
  rw [hfront, rdropWhile_of_front hclean]

theorem release_of_blank {tail : List Char} (h : tail.rdropWhile isSpace = []) :
    release tail = none := by
  have hall : ∀ c ∈ tail, isSpace c = true := List.rdropWhile_eq_nil_iff.mp h
  have hdots : ∀ c ∈ tail, decide (c = '.') = false := by
    intro c hc
    rw [decide_eq_false_iff_not]
    rintro rfl
    exact absurd (hall _ hc) (by decide)
  have hnumber : releaseNumber tail = none := by
    cases tail with
    | nil => rfl
    | cons c tail =>
      have hdigit : c.isDigit = false := by
        by_contra hd
        rw [Bool.not_eq_false] at hd
        have hspace := hall c List.mem_cons_self
        simp only [Char.isDigit, Bool.and_eq_true, decide_eq_true_eq] at hd
        have hlow : 48 ≤ c.toNat := hd.1
        have hhigh : c.toNat ≤ 57 := hd.2
        simp only [isSpace, Bool.or_eq_true, Bool.and_eq_true, decide_eq_true_eq,
          beq_iff_eq] at hspace
        omega
      simp [releaseNumber, hdigit]
  unfold release
  rw [List.splitOnP_eq_singleton hdots]
  simp [hnumber]

theorem releaseClause_isSome {text : List Char} (h : (releaseClause text).isSome = true) :
    ∃ op tail, text = op ++ tail ∧ op ∈ comparisonOperators ∧ (release tail).isSome = true := by
  unfold releaseClause at h
  split at h
  · next tail => exact ⟨['>', '='], tail, rfl, by decide, by simpa using h⟩
  · next tail => exact ⟨['<', '='], tail, rfl, by decide, by simpa using h⟩
  · next tail => exact ⟨['=', '='], tail, rfl, by decide, by simpa using h⟩
  · next tail _ => exact ⟨['>'], tail, rfl, by decide, by simpa using h⟩
  · next tail _ => exact ⟨['<'], tail, rfl, by decide, by simpa using h⟩
  · cases h

theorem isSome_of_mapM {α β : Type} {f : α → Option β} {xs : List α} (h : (xs.mapM f).isSome = true)
    {x : α} (hx : x ∈ xs) : (f x).isSome = true := by
  induction xs with
  | nil => cases hx
  | cons y xs ih =>
    rw [List.mapM_cons] at h
    cases hy : f y with
    | none => simp [hy] at h
    | some b =>
      cases hxs : xs.mapM f with
      | none => simp [hy, hxs] at h
      | some bs =>
        rcases List.mem_cons.mp hx with rfl | hx
        · rw [hy]
          rfl
        · exact ih (by rw [hxs]; rfl) hx

theorem operators_clean : ∀ op ∈ comparisonOperators, op ≠ [] ∧ op.all (!isSpace ·) = true := by
  decide

/-- A clause of plain releases is an operator before a release number. -/
theorem releaseClause_of_mem {text : String} (h : (releasePackaging.specifierSet text).isSome)
    {clause : List Char} (hclause : clause ∈ clauses text.toList) :
    ∃ op tail, clause = op ++ tail.rdropWhile isSpace ∧ op ∈ comparisonOperators ∧
      (release tail).isSome = true := by
  unfold clauses at hclause
  rw [List.mem_filter, List.mem_map] at hclause
  obtain ⟨⟨piece, hpiece, rfl⟩, hne⟩ := hclause
  have hpiece' : piece ≠ [] := by
    rintro rfl
    exact absurd hne (by decide)
  have hsome := isSome_of_mapM h (List.mem_filter.mpr ⟨hpiece, by simpa using hpiece'⟩)
  obtain ⟨op, tail, rfl, hop, hrelease⟩ := releaseClause_isSome hsome
  obtain ⟨hop', hclean⟩ := operators_clean op hop
  rw [List.all_eq_true] at hclean
  exact ⟨op, tail, stripChars_of_front hop' (by simpa using hclean) tail, hop, hrelease⟩

theorem releasePackaging_compares : ClausesCompare releasePackaging where
  operator text h clause hclause := by
    obtain ⟨op, tail, rfl, hop, -⟩ := releaseClause_of_mem h hclause
    unfold startsWithOperator
    rw [List.any_eq_true]
    exact ⟨op, hop, by rw [List.isPrefixOf_iff_prefix]; exact List.prefix_append _ _⟩
  operand text h hclause := by
    obtain ⟨op, tail, heq, hop, hrelease⟩ := releaseClause_of_mem h hclause
    have hnil : tail.rdropWhile isSpace = [] := by
      have hlong : ∀ op ∈ comparisonOperators, op.length = 2 ∨ ['=', '='].take 1 ≠ op.take 1 ∨
          op.length = 3 := by decide
      have hlen := congrArg List.length heq
      rw [List.length_append] at hlen
      simp only [List.length_cons, List.length_nil] at hlen
      rcases hlong op hop with htwo | hhead | hthree
      · exact List.eq_nil_of_length_eq_zero (by omega)
      · exfalso
        apply hhead
        rw [heq, List.take_append_of_le_length]
        exact List.length_pos_of_ne_nil (operators_clean op hop).1
      · omega
    rw [release_of_blank hnil] at hrelease
    cases hrelease

/-- A range with blanks is read alike by both. -/
theorem spacedRange_agrees : MatchersAgree releasePackaging id "1.5.0" " >=1.0 <2.0" := by
  refine (matchers_agree_iff releasePackaging id releasePackaging_compares _ _).mpr (.inr ?_)
  rw [if_neg (by decide)]
  exact .inl (by decide)

/-- A bare version stops an install and loads as an exact requirement. -/
theorem bareVersion_parts :
    Verdict.of (versionSatisfiesRequirement releasePackaging id "1.2.3" "1.2.3") = .invalid ∧
      Verdict.of (dependencyVersionMatches releasePackaging "1.2.3" "1.2.3") = .accept ∧
      ¬ MatchersAgree releasePackaging id "1.2.3" "1.2.3" := by
  have hinstall : Verdict.of (versionSatisfiesRequirement releasePackaging id "1.2.3" "1.2.3") =
      .invalid := by decide
  have hload : Verdict.of (dependencyVersionMatches releasePackaging "1.2.3" "1.2.3") = .accept := by
    decide
  refine ⟨hinstall, hload, ?_⟩
  unfold MatchersAgree
  rw [hinstall, hload]
  decide

end Connectors
