import DataRelay.SchemaObservation.PathRoundTrip
import DataRelay.SensitiveDetection.StringSamples

/-! The last segment of a path. Behind a plain member it is the member; a quoted member keeps
its quotes and its escapes, so it never is. -/
namespace SensitiveDetection
open JsonPath Protection PyText SchemaObservation

/-- The ASCII characters in the lower case of any other character are letters, as with the
Kelvin sign and the capital I with a dot. -/
def LowersToLetters (T : CaseTable) : Prop :=
  ∀ c, 128 ≤ c.toNat → ∀ d ∈ T.lower c, d.toNat < 128 → d.isLower = true

section Lower

variable {T : CaseTable}

/-- A mark: a dot or a single quote. -/
def IsMark (d : Char) : Prop := d = '.' ∨ d = singleQuote

theorem toLower_mark {d : Char} (hd : IsMark d) {c : Char} (hc : c.toNat < 128) :
    c.toLower = d ↔ c = d := by
  have htable : ∀ n < 128, ((Char.ofNat n).toLower = '.' ↔ Char.ofNat n = '.') ∧
      ((Char.ofNat n).toLower = singleQuote ↔ Char.ofNat n = singleQuote) := by decide
  have hentry := htable c.toNat hc
  rw [Char.ofNat_toNat] at hentry
  rcases hd with rfl | rfl
  · exact hentry.1
  · exact hentry.2

theorem count_lowerChar (hT : LowersToLetters T) {d : Char} (hd : IsMark d)
    (before after : List Char) (c : Char) :
    (T.lowerChar before after c).count d = if c = d then 1 else 0 := by
  have hmark : d.toNat < 128 ∧ d.isLower = false ∧ d ≠ 'Σ' ∧ d ≠ 'ς' ∧ d ≠ 'σ' := by
    rcases hd with rfl | rfl <;> decide
  by_cases hcd : c = d
  · subst hcd
    have hsame : c.toLower = c := (toLower_mark hd hmark.1).mpr rfl
    rw [if_pos rfl, CaseTable.lowerChar, if_neg hmark.2.2.1, T.lower_ascii c hmark.1, hsame,
      List.count_singleton_self]
  · rw [if_neg hcd, List.count_eq_zero]
    intro hmem
    unfold CaseTable.lowerChar at hmem
    split_ifs at hmem with hsigma hword
    · exact hmark.2.2.2.1 (List.mem_singleton.mp hmem)
    · exact hmark.2.2.2.2 (List.mem_singleton.mp hmem)
    · by_cases hascii : c.toNat < 128
      · rw [T.lower_ascii c hascii, List.mem_singleton] at hmem
        exact hcd ((toLower_mark hd hascii).mp hmem.symm)
      · have hletter := hT c (Nat.le_of_not_lt hascii) d hmem hmark.1
        rw [hmark.2.1] at hletter
        exact Bool.false_ne_true hletter

/-- Lower-casing keeps the number of dots and of quotes. -/
theorem count_lowerFrom (hT : LowersToLetters T) {d : Char} (hd : IsMark d) (cs : List Char) :
    ∀ before : List Char, (T.lowerFrom before cs).count d = cs.count d := by
  induction cs with
  | nil =>
    intro before
    rfl
  | cons c cs ih =>
    intro before
    rw [CaseTable.lowerFrom, List.count_append, count_lowerChar hT hd, ih, List.count_cons]
    by_cases hc : c = d
    · simp only [hc, beq_self_eq_true, ↓reduceIte]
      omega
    · simp [hc]

theorem count_lowerText (hT : LowersToLetters T) {d : Char} (hd : IsMark d) (s : String) :
    (T.lowerText s).toList.count d = s.toList.count d := by
  rw [CaseTable.lowerText, String.toList_ofList]
  exact count_lowerFrom hT hd s.toList []

end Lower

section Text

/-- The brackets a path has after its last member, one pair for each list. -/
def pairs (n : ℕ) : List Char := selsChars (List.replicate n .wild)

theorem pairs_succ (n : ℕ) : pairs (n + 1) = '[' :: ']' :: pairs n := rfl

theorem mem_pairs {n : ℕ} {c : Char} (h : c ∈ pairs n) : c = '[' ∨ c = ']' := by
  induction n with
  | zero => exact absurd h List.not_mem_nil
  | succ n ih =>
    rw [pairs_succ, List.mem_cons, List.mem_cons] at h
    rcases h with h | h | h
    · exact .inl h
    · exact .inr h
    · exact ih h

theorem dropPairs_pairs (n : ℕ) : dropPairs (pairs n) = [] := by
  induction n with
  | zero => rfl
  | succ n ih => rw [pairs_succ, dropPairs, ih]

theorem dropPairs_cons {c : Char} (hc : c ≠ '[') (cs : List Char) :
    dropPairs (c :: cs) = c :: dropPairs cs := by
  rw [dropPairs.eq_def]
  split
  · next heq => cases heq
  · next heq => exact absurd (List.cons.inj heq).1 hc
  · next heq =>
    obtain ⟨rfl, rfl⟩ := List.cons.inj heq
    rfl

theorem dropPairs_append {k : List Char} (hk : '[' ∉ k) (cs : List Char) :
    dropPairs (k ++ cs) = k ++ dropPairs cs := by
  induction k with
  | nil => rfl
  | cons c k ih =>
    rw [List.mem_cons, not_or] at hk
    rw [List.cons_append, dropPairs_cons (Ne.symm hk.1), ih hk.2, List.cons_append]

/-- Taking out pairs of brackets leaves the marks. -/
theorem count_dropPairs {d : Char} (hd : IsMark d) (cs : List Char) :
    (dropPairs cs).count d = cs.count d := by
  have hopen : '[' ≠ d ∧ ']' ≠ d := by rcases hd with rfl | rfl <;> decide
  fun_induction dropPairs cs with
  | case1 => rfl
  | case2 cs ih => rw [ih, List.count_cons_of_ne hopen.1, List.count_cons_of_ne hopen.2]
  | case3 c cs _ ih => rw [List.count_cons, List.count_cons, ih]

theorem pathRemainder_root (rest : List Char) :
    pathRemainder ('$' :: rest) = if rest.head? = some '.' then rest.tail else rest := by
  cases rest with
  | nil => rfl
  | cons c rest =>
    by_cases hc : c = '.'
    · subst hc
      rfl
    · have hdrop : (c :: rest).dropWhile (· = '.') = c :: rest := by
        rw [List.dropWhile_cons_of_neg]
        simpa using hc
      rw [pathRemainder.eq_def]
      split
      · next heq => exact absurd (List.cons.inj (List.cons.inj heq).2).1 hc
      · next heq =>
        obtain ⟨-, rfl⟩ := List.cons.inj heq
        rw [hdrop, if_neg (by simpa using hc)]
      · next hother => exact absurd rfl (hother _)

theorem rtakeWhile_no_dot {t : List Char} (ht : '.' ∉ t) (a : List Char) :
    (a ++ t).rtakeWhile (· ≠ '.') = a.rtakeWhile (· ≠ '.') ++ t := by
  have hall : ∀ c ∈ t.reverse, (decide (c ≠ '.')) = true := by
    intro c hc
    rw [decide_eq_true_eq]
    rintro rfl
    exact ht (List.mem_reverse.mp hc)
  rw [List.rtakeWhile, List.reverse_append, List.takeWhile_append_of_pos hall,
    List.reverse_append, List.reverse_reverse, List.rtakeWhile]

theorem rtakeWhile_after_dot {t : List Char} (ht : '.' ∉ t) (a : List Char) :
    (a ++ '.' :: t).rtakeWhile (· ≠ '.') = t := by
  have hdot : (a ++ ['.']).rtakeWhile (· ≠ '.') = [] := by
    rw [List.rtakeWhile_concat_neg]
    simp
  rw [List.append_cons, rtakeWhile_no_dot ht, hdot, List.nil_append]

theorem not_mem_rtakeWhile (a : List Char) : '.' ∉ a.rtakeWhile (· ≠ '.') := by
  intro h
  have := List.mem_rtakeWhile_imp h
  simp at this

end Text

section Leaf

variable {T : CaseTable}

theorem leafSegment_of_text {path : String} {rest : List Char} (h : path.toList = '$' :: rest)
    (hrest : pathRemainder ('$' :: rest) ≠ []) :
    leafSegment T path = T.lowerText (String.ofList
      (dropPairs ((pathRemainder ('$' :: rest)).rtakeWhile (· ≠ '.')))) := by
  have hroot : path ≠ "$" := by
    rintro rfl
    have : rest = [] := (List.cons.inj h).2.symm
    subst this
    exact hrest rfl
  rw [leafSegment, if_neg hroot, h, if_neg hrest]

/-- Behind a plain member the last segment is the member. -/
theorem leafSegment_plain {path : String} {a : List Char} {key : String} {n : ℕ}
    (hplain : isPlainMember key.toList = true)
    (h : path.toList = '$' :: (a ++ (memberChars key ++ pairs n))) :
    leafSegment T path = T.lowerText key := by
  obtain ⟨hne, hchars⟩ := isPlainMember_all hplain
  have hname : ∀ c ∈ key.toList, c ≠ '.' ∧ c ≠ '[' := by
    intro c hc
    have := (nameChar_of_plain (hchars c hc)).1
    simpa [nameChar] using this
  have htail : '.' ∉ key.toList ++ pairs n := by
    rw [List.mem_append, not_or]
    refine ⟨fun hmem => (hname _ hmem).1 rfl, fun hmem => ?_⟩
    rcases mem_pairs hmem with hc | hc <;> exact absurd hc (by decide)
  have hmember : memberChars key ++ pairs n = '.' :: (key.toList ++ pairs n) := by
    rw [memberChars, if_pos hplain, List.cons_append]
  rw [hmember] at h
  have hleaf : (pathRemainder ('$' :: (a ++ '.' :: (key.toList ++ pairs n)))).rtakeWhile (· ≠ '.') =
      key.toList ++ pairs n := by
    rw [pathRemainder_root]
    cases a with
    | nil =>
      have hnone := rtakeWhile_no_dot htail []
      simpa using hnone
    | cons c a =>
      split_ifs
      · exact rtakeWhile_after_dot htail a
      · exact rtakeWhile_after_dot htail (c :: a)
  have hremainder : pathRemainder ('$' :: (a ++ '.' :: (key.toList ++ pairs n))) ≠ [] := by
    intro hnil
    rw [hnil] at hleaf
    exact hne (List.append_eq_nil_iff.mp hleaf.symm).1
  have hopen : '[' ∉ key.toList := fun hmem => (hname _ hmem).2 rfl
  rw [leafSegment_of_text h hremainder, hleaf, dropPairs_append hopen, dropPairs_pairs,
    List.append_nil, String.ofList_toList]

theorem count_quote_encodeChar (c : Char) :
    (if c = singleQuote then 1 else 0) ≤ (encodeChar c).count singleQuote := by
  by_cases hc : c = singleQuote
  · subst hc
    decide
  · rw [if_neg hc]
    exact Nat.zero_le _

theorem count_quote_encoded (key : List Char) :
    key.count singleQuote ≤ (key.flatMap encodeChar).count singleQuote := by
  induction key with
  | nil => exact Nat.le_refl 0
  | cons c key ih =>
    have hone := count_quote_encodeChar c
    rw [List.flatMap_cons, List.count_append, List.count_cons]
    by_cases hc : c = singleQuote
    · simp only [hc, beq_self_eq_true, ↓reduceIte] at hone ⊢
      omega
    · have hbeq : (c == singleQuote) = false := by simpa using hc
      simp only [hbeq, Bool.false_eq_true, ↓reduceIte]
      omega

theorem dot_not_mem_encodeChar {c : Char} (hc : c ≠ '.') : '.' ∉ encodeChar c := by
  have hhex : ∀ n < 16, '.' ≠ hexDigit n := by decide
  have hslash : '.' ≠ backslash := by decide
  have hquote : '.' ≠ singleQuote := by decide
  unfold encodeChar
  split_ifs with h1 h2 h3 h4 h5 h6 h7 h8
  · simpa using hslash
  · simp [hslash, hquote]
  · simp [hslash]
  · simp [hslash]
  · simp [hslash]
  · simp [hslash]
  · simp [hslash]
  · have hhigh := hhex (c.toNat / 16) (by omega)
    have hlow := hhex (c.toNat % 16) (by omega)
    simp [hslash, hhigh, hlow]
  · simpa using hc.symm

/-- Behind a quoted member the last segment is never the member: it keeps the two quotes, or the
dots of the member are lost. -/
theorem leafSegment_quoted (hT : LowersToLetters T) {path : String} {a : List Char} {key : String}
    {n : ℕ} (hquoted : isPlainMember key.toList = false)
    (h : path.toList = '$' :: (a ++ (memberChars key ++ pairs n))) :
    leafSegment T path ≠ T.lowerText key := by
  have hmember : memberChars key =
      '[' :: singleQuote :: (key.toList.flatMap encodeChar ++ [singleQuote, ']']) := by
    rw [memberChars, if_neg (by simp [hquoted])]
    rfl
  obtain ⟨b, hb⟩ : ∃ b, pathRemainder ('$' :: (a ++ (memberChars key ++ pairs n))) =
      b ++ (memberChars key ++ pairs n) := by
    rw [pathRemainder_root]
    cases a with
    | nil =>
      refine ⟨[], if_neg ?_⟩
      rw [hmember]
      simp
    | cons c a =>
      split_ifs
      · exact ⟨a, rfl⟩
      · exact ⟨c :: a, rfl⟩
  have hremainder : pathRemainder ('$' :: (a ++ (memberChars key ++ pairs n))) ≠ [] := by
    rw [hb, hmember]
    simp
  rw [leafSegment_of_text h hremainder, hb]
  intro heq
  have hcount {d : Char} (hd : IsMark d) :
      ((b ++ (memberChars key ++ pairs n)).rtakeWhile (· ≠ '.')).count d = key.toList.count d := by
    have := congrArg (fun s => s.toList.count d) heq
    simpa only [count_lowerText hT hd, String.toList_ofList, count_dropPairs hd] using this
  by_cases hdot : '.' ∈ key.toList
  · have hzero := hcount (.inl rfl)
    rw [List.count_eq_zero.mpr (not_mem_rtakeWhile _)] at hzero
    exact List.count_eq_zero.mp hzero.symm hdot
  · have hclean : '.' ∉ memberChars key ++ pairs n := by
      rw [hmember]
      intro hmem
      simp only [List.cons_append, List.append_assoc, List.mem_cons, List.mem_append,
        List.not_mem_nil, false_or] at hmem
      rcases hmem with h1 | h1 | h1 | h1 | h1 | h1
      · exact absurd h1 (by decide)
      · exact absurd h1 (by decide)
      · obtain ⟨c, hc, hcmem⟩ := List.mem_flatMap.mp h1
        exact dot_not_mem_encodeChar (fun he => hdot (he ▸ hc)) hcmem
      · exact absurd h1 (by decide)
      · exact absurd h1 (by decide)
      · rcases mem_pairs h1 with hc | hc <;> exact absurd hc (by decide)
    have hquotes := hcount (.inr rfl)
    have henc := count_quote_encoded key.toList
    rw [rtakeWhile_no_dot hclean, List.count_append, List.count_append, hmember] at hquotes
    simp only [List.count_cons, List.count_append, beq_self_eq_true, ↓reduceIte] at hquotes
    omega

end Leaf

end SensitiveDetection
