import DataRelay.Lib.PyText
import Mathlib

/-! Lower-casing a text by a table of letter case, joining texts by lines, and looking for one
text in another. Lower-casing looks around one letter only, the capital sigma, and never past
white space; so it goes through the join. -/
namespace PyText

/-- What the Unicode data say of the case of a character, with the facts about white space and
ASCII the rest relies on. -/
structure CaseTable where
  lower : Char → List Char
  cased : Char → Bool
  ignorable : Char → Bool
  lower_ne_nil : ∀ c, lower c ≠ []
  lower_ascii : ∀ c, c.toNat < 128 → lower c = [c.toLower]
  lower_space : ∀ c, isSpace c = true → lower c = [c]
  lower_nonspace : ∀ c, isSpace c = false → ∀ d ∈ lower c, isSpace d = false
  space_plain : ∀ c, isSpace c = true → cased c = false ∧ ignorable c = false

namespace CaseTable
variable (T : CaseTable)

/-- Past the characters case does not see, the text opens with a letter of some case. -/
def opensCased (cs : List Char) : Bool :=
  match cs.dropWhile T.ignorable with
  | [] => false
  | c :: _ => T.cased c

/-- A capital sigma that ends a word has a lower case of its own; `before` is the text before the
character, last character first. -/
def lowerChar (before after : List Char) (c : Char) : List Char :=
  if c = 'Σ' then [if T.opensCased before && !T.opensCased after then 'ς' else 'σ']
  else T.lower c

def lowerFrom (before : List Char) : List Char → List Char
  | [] => []
  | c :: cs => T.lowerChar before cs c ++ lowerFrom (c :: before) cs

def lowerChars (cs : List Char) : List Char := T.lowerFrom [] cs

/-- `str.lower()`. -/
def lowerText (s : String) : String := String.ofList (T.lowerChars s.toList)

end CaseTable

/-- `k in s`. -/
def contains (k s : String) : Bool := decide (k.toList <:+: s.toList)

/-- The first position at which `k` starts in a text, as `str.find` counts it. -/
def findFrom (k : List Char) : List Char → Option ℕ
  | [] => if k = [] then some 0 else none
  | c :: cs => if k <+: c :: cs then some 0 else (findFrom k cs).map (· + 1)

/-- `"\n".join(parts)`. -/
def joinLines (parts : List String) : String :=
  String.ofList (['\n'].intercalate (parts.map String.toList))

/-! ### White space cuts the text -/

namespace CaseTable
variable (T : CaseTable)

theorem opensCased_append_space {w : Char} (hw : isSpace w = true) (a b : List Char) :
    T.opensCased (a ++ w :: b) = T.opensCased a := by
  obtain ⟨hcased, hign⟩ := T.space_plain w hw
  induction a with
  | nil => simp [opensCased, hign, hcased]
  | cons c a ih =>
    cases hc : T.ignorable c with
    | false => simp [opensCased, hc]
    | true => simpa [opensCased, hc] using ih

theorem lowerFrom_before {w : Char} (hw : isSpace w = true) (pre b cs : List Char) :
    T.lowerFrom (pre ++ w :: b) cs = T.lowerFrom pre cs := by
  induction cs generalizing pre with
  | nil => rfl
  | cons c cs ih =>
    have hrest := ih (c :: pre)
    rw [List.cons_append] at hrest
    simp only [lowerFrom, lowerChar, T.opensCased_append_space hw, hrest]

theorem lowerFrom_append_space {w : Char} (hw : isSpace w = true) (pre a b : List Char) :
    T.lowerFrom pre (a ++ w :: b) = T.lowerFrom pre a ++ w :: T.lowerChars b := by
  induction a generalizing pre with
  | nil =>
    have hsigma : w ≠ 'Σ' := by
      rintro rfl
      exact absurd hw (by decide)
    have hcut := T.lowerFrom_before hw [] pre b
    rw [List.nil_append] at hcut
    simp [lowerFrom, lowerChars, lowerChar, hsigma, T.lower_space w hw, hcut]
  | cons c a ih =>
    simp only [List.cons_append, lowerFrom, lowerChar, T.opensCased_append_space hw,
      ih (c :: pre), List.append_assoc]

theorem lowerChars_append_space {w : Char} (hw : isSpace w = true) (a b : List Char) :
    T.lowerChars (a ++ w :: b) = T.lowerChars a ++ w :: T.lowerChars b :=
  T.lowerFrom_append_space hw [] a b

/-- White space around a text stays as it is. -/
theorem lowerChars_spaces_append {l : List Char} (hl : ∀ c ∈ l, isSpace c = true)
    (cs : List Char) : T.lowerChars (l ++ cs) = l ++ T.lowerChars cs := by
  induction l with
  | nil => rfl
  | cons w l ih =>
    have hcut := T.lowerChars_append_space (hl w List.mem_cons_self) [] (l ++ cs)
    have hrest := ih fun c hc => hl c (List.mem_cons_of_mem w hc)
    rw [List.nil_append] at hcut
    rw [List.cons_append, hcut, hrest]
    rfl

theorem lowerChars_append_spaces {r : List Char} (hr : ∀ c ∈ r, isSpace c = true)
    (cs : List Char) : T.lowerChars (cs ++ r) = T.lowerChars cs ++ r := by
  cases r with
  | nil => simp
  | cons w r =>
    have hrest := T.lowerChars_spaces_append (fun c hc => hr c (List.mem_cons_of_mem w hc)) []
    rw [List.append_nil] at hrest
    rw [T.lowerChars_append_space (hr w List.mem_cons_self), hrest]
    simp [lowerChars, lowerFrom]

theorem lowerChars_intercalate (parts : List (List Char)) :
    T.lowerChars (['\n'].intercalate parts) = ['\n'].intercalate (parts.map T.lowerChars) := by
  induction parts with
  | nil => rfl
  | cons p ps ih =>
    cases ps with
    | nil => simp [List.intercalate_singleton]
    | cons q qs =>
      have hcut := T.lowerChars_append_space (w := '\n') (by decide) p (['\n'].intercalate (q :: qs))
      rw [List.map_cons, List.map_cons, List.intercalate_cons_cons, List.intercalate_cons_cons,
        ← List.map_cons, ← ih]
      simpa using hcut

end CaseTable

/-! ### Trimmed texts -/

/-- A text that is not empty and has no white space at either end. -/
structure Trimmed (cs : List Char) : Prop where
  ne_nil : cs ≠ []
  head : ∀ c ∈ cs.head?, isSpace c = false
  last : ∀ c ∈ cs.getLast?, isSpace c = false

theorem Trimmed.reverse {cs : List Char} (h : Trimmed cs) : Trimmed cs.reverse where
  ne_nil := by simpa using h.ne_nil
  head := by simpa using h.last
  last := by simpa using h.head

instance (cs : List Char) : Decidable (Trimmed cs) :=
  decidable_of_iff (cs ≠ [] ∧ (∀ c ∈ cs.head?, isSpace c = false) ∧
    ∀ c ∈ cs.getLast?, isSpace c = false)
    ⟨fun h => ⟨h.1, h.2.1, h.2.2⟩, fun h => ⟨h.ne_nil, h.head, h.last⟩⟩

/-- A text is its trimmed part between white space. -/
theorem exists_spaces (cs : List Char) :
    ∃ l r, (∀ c ∈ l, isSpace c = true) ∧ (∀ c ∈ r, isSpace c = true) ∧
      cs = l ++ stripChars cs ++ r := by
  refine ⟨cs.takeWhile isSpace, (cs.dropWhile isSpace).rtakeWhile isSpace, ?_, ?_, ?_⟩
  · intro c hc
    exact List.mem_takeWhile_imp hc
  · intro c hc
    exact List.mem_rtakeWhile_imp hc
  · rw [stripChars, List.append_assoc, List.rdropWhile_append_rtakeWhile,
      List.takeWhile_append_dropWhile]

theorem blank_of_strip {s : String} (h : strip s = "") : ∀ c ∈ s.toList, isSpace c = true := by
  obtain ⟨l, r, hl, hr, hs⟩ := exists_spaces s.toList
  have hnil : stripChars s.toList = [] := by
    have := congrArg String.toList h
    simpa [strip] using this
  intro c hc
  rw [hs, hnil, List.append_nil] at hc
  rcases List.mem_append.mp hc with hc | hc
  · exact hl c hc
  · exact hr c hc

/-- A text with a character in it that is no white space is not blank. -/
theorem strip_ne_of_mem {s : String} {c : Char} (hc : c ∈ s.toList)
    (hspace : isSpace c = false) : strip s ≠ "" := by
  intro h
  rw [blank_of_strip h c hc] at hspace
  contradiction

theorem trimmed_stripChars {cs : List Char} (h : stripChars cs ≠ []) :
    Trimmed (stripChars cs) where
  ne_nil := h
  head := by
    intro c hc
    have hclean : (stripChars cs).dropWhile isSpace = stripChars cs :=
      dropWhile_rdropWhile isSpace _ (List.dropWhile_idempotent isSpace cs)
    cases hs : stripChars cs with
    | nil => exact absurd hs h
    | cons d ds =>
      rw [hs] at hc hclean
      obtain rfl : d = c := by simpa using hc
      by_contra hd
      rw [Bool.not_eq_false] at hd
      rw [List.dropWhile_cons_of_pos hd] at hclean
      have hlen := congrArg List.length hclean
      have hle := List.length_dropWhile_le isSpace ds
      simp only [List.length_cons] at hlen
      omega
  last := by
    intro c hc
    have hlast := List.rdropWhile_last_not isSpace (cs.dropWhile isSpace) h
    rw [List.getLast?_eq_getLast_of_ne_nil h] at hc
    obtain rfl := Option.some.inj hc
    exact Bool.not_eq_true _ ▸ hlast

theorem infix_of_infix_spaces_append {k l y : List Char} (hk : Trimmed k)
    (hl : ∀ c ∈ l, isSpace c = true) (h : k <:+: l ++ y) : k <:+: y := by
  induction l with
  | nil => exact h
  | cons w l ih =>
    rw [List.cons_append, List.infix_cons_iff] at h
    rcases h with hpre | hin
    · cases k with
      | nil => exact absurd rfl hk.ne_nil
      | cons c k =>
        obtain ⟨rfl, -⟩ := List.cons_prefix_cons.mp hpre
        have hspace := hl c List.mem_cons_self
        rw [hk.head c rfl] at hspace
        contradiction
    · exact ih (fun c hc => hl c (List.mem_cons_of_mem w hc)) hin

/-- What is trimmed and lies inside a text lies inside its trimmed part. -/
theorem infix_of_infix_between {k l y r : List Char} (hk : Trimmed k)
    (hl : ∀ c ∈ l, isSpace c = true) (hr : ∀ c ∈ r, isSpace c = true)
    (h : k <:+: l ++ y ++ r) : k <:+: y := by
  rw [List.append_assoc] at h
  have hback := List.reverse_infix.mpr (infix_of_infix_spaces_append hk hl h)
  rw [List.reverse_append] at hback
  apply List.reverse_infix.mp
  exact infix_of_infix_spaces_append hk.reverse (fun c hc => hr c (List.mem_reverse.mp hc)) hback

namespace CaseTable
variable (T : CaseTable)

theorem lowerChar_nonspace {c : Char} (hc : isSpace c = false) (before after : List Char) :
    T.lowerChar before after c ≠ [] ∧
      ∀ d ∈ T.lowerChar before after c, isSpace d = false := by
  unfold lowerChar
  by_cases hsigma : c = 'Σ'
  · rw [if_pos hsigma]
    refine ⟨by simp, ?_⟩
    intro d hd
    rw [List.mem_singleton] at hd
    subst hd
    split_ifs <;> decide
  · rw [if_neg hsigma]
    exact ⟨T.lower_ne_nil c, T.lower_nonspace c hc⟩

theorem exists_lowerFrom_concat (pre a : List Char) (c : Char) :
    ∃ x before, T.lowerFrom pre (a ++ [c]) = x ++ T.lowerChar before [] c := by
  induction a generalizing pre with
  | nil => exact ⟨[], pre, by simp [lowerFrom]⟩
  | cons d a ih =>
    obtain ⟨x, before, hx⟩ := ih (d :: pre)
    exact ⟨T.lowerChar pre (a ++ [c]) d ++ x, before, by simp [lowerFrom, hx]⟩

theorem trimmed_lowerChars {k : List Char} (hk : Trimmed k) : Trimmed (T.lowerChars k) where
  ne_nil := by
    cases k with
    | nil => exact absurd rfl hk.ne_nil
    | cons c k =>
      obtain ⟨hne, -⟩ := T.lowerChar_nonspace (hk.head c rfl) [] k
      simp [lowerChars, lowerFrom, hne]
  head := by
    cases k with
    | nil => exact absurd rfl hk.ne_nil
    | cons c k =>
      intro d hd
      obtain ⟨hne, hclean⟩ := T.lowerChar_nonspace (hk.head c rfl) [] k
      apply hclean d
      rw [lowerChars, lowerFrom, List.head?_append_of_ne_nil _ hne] at hd
      exact List.mem_of_mem_head? hd
  last := by
    intro d hd
    obtain ⟨a, c, rfl⟩ := List.eq_nil_or_concat k |>.resolve_left hk.ne_nil
    have hc : isSpace c = false := hk.last c (by simp)
    obtain ⟨x, before, hx⟩ := T.exists_lowerFrom_concat [] a c
    obtain ⟨hne, hclean⟩ := T.lowerChar_nonspace hc before []
    apply hclean d
    rw [lowerChars, List.concat_eq_append, hx, List.getLast?_append_of_ne_nil _ hne] at hd
    exact List.mem_of_mem_getLast? hd

/-- Lower-casing trims as it goes. -/
theorem exists_spaces_lowerChars (cs : List Char) :
    ∃ l r, (∀ c ∈ l, isSpace c = true) ∧ (∀ c ∈ r, isSpace c = true) ∧
      T.lowerChars cs = l ++ T.lowerChars (stripChars cs) ++ r := by
  obtain ⟨l, r, hl, hr, hcs⟩ := exists_spaces cs
  refine ⟨l, r, hl, hr, ?_⟩
  calc T.lowerChars cs = T.lowerChars (l ++ stripChars cs ++ r) := by rw [← hcs]
    _ = l ++ T.lowerChars (stripChars cs) ++ r := by
      rw [T.lowerChars_append_spaces hr, T.lowerChars_spaces_append hl]

end CaseTable

/-! ### Looking for a keyword -/

theorem infix_intercalate {s p : List Char} {parts : List (List Char)}
    (h : p ∈ parts) : p <:+: s.intercalate parts := by
  induction parts with
  | nil => cases h
  | cons q qs ih =>
    cases qs with
    | nil =>
      obtain rfl := List.mem_singleton.mp h
      rw [List.intercalate_singleton]
    | cons q' qs =>
      rw [List.intercalate_cons_cons]
      rcases List.mem_cons.mp h with rfl | hrest
      · exact ⟨[], s ++ s.intercalate (q' :: qs), by simp⟩
      · exact (ih hrest).trans (List.suffix_append (q ++ s) _).isInfix

namespace CaseTable
variable (T : CaseTable)

/-- `keyword in text`, or the same of the lower cases. -/
def occurs (ignoreCase : Bool) (k s : String) : Bool :=
  if ignoreCase then contains (T.lowerText k) (T.lowerText s) else contains k s

/-- The text has the trimmed `s` in it, and its lower case that of `s`. -/
def Repeats (s text : String) : Prop :=
  stripChars s.toList <:+: text.toList ∧
    T.lowerChars (stripChars s.toList) <:+: T.lowerChars text.toList

instance (s text : String) : Decidable (T.Repeats s text) :=
  inferInstanceAs (Decidable (_ ∧ _))

theorem occurs_iff {ignoreCase : Bool} {k s : String} :
    T.occurs ignoreCase k s = true ↔
      if ignoreCase then T.lowerChars k.toList <:+: T.lowerChars s.toList
      else k.toList <:+: s.toList := by
  cases ignoreCase <;> simp [occurs, contains, lowerText]

theorem repeats_self (s : String) : T.Repeats s s := by
  obtain ⟨l, r, -, -, hs⟩ := exists_spaces s.toList
  obtain ⟨l', r', -, -, hlow⟩ := T.exists_spaces_lowerChars s.toList
  exact ⟨⟨l, r, hs.symm⟩, ⟨l', r', hlow.symm⟩⟩

theorem repeats_of_blank {s : String} (h : strip s = "") (text : String) :
    T.Repeats s text := by
  have hnil : stripChars s.toList = [] := by
    have := congrArg String.toList h
    simpa [strip] using this
  simp [Repeats, hnil, lowerChars, lowerFrom]

theorem repeats_joinLines {s : String} {parts : List String} (h : strip s ∈ parts) :
    T.Repeats s (joinLines parts) := by
  have hmem : stripChars s.toList ∈ parts.map String.toList := by
    refine List.mem_map.mpr ⟨strip s, h, ?_⟩
    simp [strip]
  constructor
  · simpa [joinLines] using infix_intercalate (s := ['\n']) hmem
  · have hlow := infix_intercalate (s := ['\n']) (List.mem_map_of_mem (f := T.lowerChars) hmem)
    simpa [joinLines, T.lowerChars_intercalate] using hlow

/-- A trimmed keyword of a text that is repeated is found in the other text too. -/
theorem occurs_of_repeats {ignoreCase : Bool} {k s text : String} (hk : Trimmed k.toList)
    (h : T.Repeats s text) (hocc : T.occurs ignoreCase k s = true) :
    T.occurs ignoreCase k text = true := by
  rw [T.occurs_iff] at hocc ⊢
  cases ignoreCase with
  | false =>
    obtain ⟨l, r, hl, hr, hs⟩ := exists_spaces s.toList
    simp only [Bool.false_eq_true, if_false] at hocc ⊢
    rw [hs] at hocc
    exact (infix_of_infix_between hk hl hr hocc).trans h.1
  | true =>
    obtain ⟨l, r, hl, hr, hs⟩ := T.exists_spaces_lowerChars s.toList
    simp only [if_true] at hocc ⊢
    rw [hs] at hocc
    exact (infix_of_infix_between (T.trimmed_lowerChars hk) hl hr hocc).trans h.2

end CaseTable

/-! ### What each letter reads as -/

namespace CaseTable
variable (T : CaseTable)

/-- Each letter with its lower case where it stands; `before` as for `lowerChar`. -/
def notesFrom (before : List Char) : List Char → List (Char × List Char)
  | [] => []
  | c :: cs => (c, T.lowerChar before cs c) :: notesFrom (c :: before) cs

def notes (cs : List Char) : List (Char × List Char) := T.notesFrom [] cs

theorem map_fst_notesFrom (pre cs : List Char) : (T.notesFrom pre cs).map Prod.fst = cs := by
  induction cs generalizing pre with
  | nil => rfl
  | cons c cs ih => rw [notesFrom, List.map_cons, ih]

theorem flatMap_notesFrom (pre cs : List Char) :
    (T.notesFrom pre cs).flatMap Prod.snd = T.lowerFrom pre cs := by
  induction cs generalizing pre with
  | nil => rfl
  | cons c cs ih => rw [notesFrom, List.flatMap_cons, ih, lowerFrom]

theorem mem_notesFrom {pre cs : List Char} {note : Char × List Char}
    (h : note ∈ T.notesFrom pre cs) : ∃ before after, note.2 = T.lowerChar before after note.1 := by
  induction cs generalizing pre with
  | nil => cases h
  | cons c cs ih =>
    rcases List.mem_cons.mp h with rfl | h
    · exact ⟨pre, cs, rfl⟩
    · exact ih h

theorem lowerChar_ne_nil (before after : List Char) (c : Char) :
    T.lowerChar before after c ≠ [] := by
  unfold lowerChar
  by_cases hsigma : c = 'Σ'
  · simp [hsigma]
  · rw [if_neg hsigma]
    exact T.lower_ne_nil c

/-- The two small sigmas taken for one. -/
def plainSigma (d : Char) : Char := if d = 'ς' then 'σ' else d

/-- The lower case of a letter wherever it stands, but for the two small sigmas. -/
def lowerAnywhere (c : Char) : List Char :=
  if c = 'Σ' then ['σ'] else (T.lower c).map plainSigma

theorem map_plainSigma_lowerFrom (pre cs : List Char) :
    (T.lowerFrom pre cs).map plainSigma = cs.flatMap T.lowerAnywhere := by
  induction cs generalizing pre with
  | nil => rfl
  | cons c cs ih =>
    have hchar : (T.lowerChar pre cs c).map plainSigma = T.lowerAnywhere c := by
      unfold lowerChar lowerAnywhere
      by_cases hsigma : c = 'Σ'
      · rw [if_pos hsigma, if_pos hsigma]
        split_ifs <;> rfl
      · rw [if_neg hsigma, if_neg hsigma]
    rw [lowerFrom, List.map_append, hchar, ih, List.flatMap_cons]

theorem plainSigma_eq_iff {d e : Char} (hd : d ≠ 'σ' ∧ d ≠ 'ς') : plainSigma e = d ↔ e = d := by
  unfold plainSigma
  split_ifs with he
  · rw [he]
    exact iff_of_false hd.1.symm hd.2.symm
  · exact Iff.rfl

/-- The lower case of a letter stands in that of the text. -/
theorem mem_lowerFrom {cs : List Char} {c d : Char} (hc : c ∈ cs) (hsigma : c ≠ 'Σ')
    (hd : d ∈ T.lower c) (pre : List Char) : d ∈ T.lowerFrom pre cs := by
  induction cs generalizing pre with
  | nil => cases hc
  | cons e cs ih =>
    rw [lowerFrom, List.mem_append]
    rcases List.mem_cons.mp hc with rfl | hrest
    · left
      rwa [lowerChar, if_neg hsigma]
    · exact .inr (ih hrest (e :: pre))

end CaseTable

/-! ### The first occurrence -/

theorem findFrom_eq_some {k s : List Char} {i : ℕ} (h : findFrom k s = some i) :
    ∃ a b, s = a ++ k ++ b ∧ a.length = i := by
  induction s generalizing i with
  | nil =>
    unfold findFrom at h
    split_ifs at h with hk
    obtain rfl := Option.some.inj h
    exact ⟨[], [], by simp [hk], rfl⟩
  | cons c s ih =>
    unfold findFrom at h
    split_ifs at h with hpre
    · obtain rfl := Option.some.inj h
      obtain ⟨b, hb⟩ := hpre
      exact ⟨[], b, by simpa using hb.symm, rfl⟩
    · obtain ⟨j, hj, rfl⟩ := Option.map_eq_some_iff.mp h
      obtain ⟨a, b, rfl, rfl⟩ := ih hj
      exact ⟨c :: a, b, by simp, by simp⟩

theorem not_infix_of_findFrom {k s : List Char} (h : findFrom k s = none) : ¬ k <:+: s := by
  induction s with
  | nil =>
    unfold findFrom at h
    split_ifs at h with hk
    rwa [List.infix_nil]
  | cons c s ih =>
    unfold findFrom at h
    split_ifs at h with hpre
    have hrest := ih (Option.map_eq_none_iff.mp h)
    rw [List.infix_cons_iff]
    rintro (hp | hin)
    · exact hpre hp
    · exact hrest hin

/-- A word is found as well in a text whose other letters are read otherwise. -/
theorem prefix_map_iff {f : Char → Char} {k s : List Char} (h : ∀ d ∈ k, ∀ e, f e = d ↔ e = d) :
    k <+: s.map f ↔ k <+: s := by
  induction k generalizing s with
  | nil => simp
  | cons d k ih =>
    cases s with
    | nil => simp
    | cons e s =>
      rw [List.map_cons, List.cons_prefix_cons, List.cons_prefix_cons,
        ih fun d' hd' => h d' (List.mem_cons_of_mem d hd'), eq_comm (a := d), eq_comm (a := d),
        h d List.mem_cons_self]

theorem infix_map_iff {f : Char → Char} {k s : List Char} (h : ∀ d ∈ k, ∀ e, f e = d ↔ e = d) :
    k <:+: s.map f ↔ k <:+: s := by
  induction s with
  | nil => simp
  | cons e s ih => rw [List.map_cons, List.infix_cons_iff, List.infix_cons_iff, ih, ← List.map_cons,
      prefix_map_iff h]

theorem findFrom_map {f : Char → Char} {k s : List Char} (h : ∀ d ∈ k, ∀ e, f e = d ↔ e = d) :
    findFrom k (s.map f) = findFrom k s := by
  induction s with
  | nil => rfl
  | cons e s ih =>
    have hhead : k <+: f e :: s.map f ↔ k <+: e :: s := prefix_map_iff (s := e :: s) h
    simp only [List.map_cons, findFrom, hhead, ih]

/-- White space around a text is trimmed with it. -/
theorem stripChars_between {l r : List Char} (hl : ∀ c ∈ l, isSpace c = true)
    (hr : ∀ c ∈ r, isSpace c = true) (cs : List Char) :
    stripChars (l ++ cs ++ r) = stripChars cs := by
  have hback : ∀ x : List Char, (x ++ r).rdropWhile isSpace = x.rdropWhile isSpace := by
    intro x
    rw [List.rdropWhile, List.rdropWhile, List.reverse_append, List.dropWhile_append_of_pos]
    intro c hc
    exact hr c (List.mem_reverse.mp hc)
  unfold stripChars
  rw [List.append_assoc, List.dropWhile_append_of_pos hl, List.dropWhile_append]
  split_ifs with hempty
  · rw [List.isEmpty_iff] at hempty
    have hnil : r.dropWhile isSpace = [] := List.dropWhile_eq_nil_iff.mpr hr
    rw [hempty, hnil]
  · exact hback _

/-! ### ASCII letters -/

theorem toLower_eq_self_of_isSpace {c : Char} (h : isSpace c = true) : c.toLower = c := by
  unfold isSpace at h
  simp only [Bool.or_eq_true, Bool.and_eq_true, decide_eq_true_eq, beq_iff_eq] at h
  unfold Char.toLower
  split_ifs with hupper
  · have hrange : 65 ≤ c.toNat ∧ c.toNat ≤ 90 := hupper
    omega
  · rfl

theorem isSpace_toLower {c : Char} (h : isSpace c = false) : isSpace c.toLower = false := by
  unfold Char.toLower
  split_ifs with hupper
  · have hlow : (65 : ℕ) ≤ c.val.toNat := hupper.1
    have hhigh : c.val.toNat ≤ 90 := hupper.2
    have hval : (c.val + ('a'.val - 'A'.val)).toNat = c.val.toNat + 32 := by
      have hdiff : ('a'.val - 'A'.val).toNat = 32 := by decide
      rw [UInt32.toNat_add, hdiff]
      omega
    simp only [isSpace, Char.toNat, hval, Bool.or_eq_false_iff, Bool.and_eq_false_iff,
      decide_eq_false_iff_not, beq_eq_false_iff_ne]
    omega
  · exact h

/-- The table that knows the ASCII letters only. -/
def asciiCase : CaseTable where
  lower c := [c.toLower]
  cased c := c.isAlpha
  ignorable _ := false
  lower_ne_nil := by simp
  lower_ascii := by simp
  lower_space := by
    intro c hc
    rw [toLower_eq_self_of_isSpace hc]
  lower_nonspace := by
    intro c hc d hd
    obtain rfl := List.mem_singleton.mp hd
    exact isSpace_toLower hc
  space_plain := by
    intro c hc
    refine ⟨?_, rfl⟩
    by_contra halpha
    rw [Bool.not_eq_false, Char.isAlpha, Bool.or_eq_true] at halpha
    simp only [isSpace, Bool.or_eq_true, Bool.and_eq_true, decide_eq_true_eq, beq_iff_eq] at hc
    rcases halpha with hupper | hlower
    · have hrange : 65 ≤ c.toNat ∧ c.toNat ≤ 90 := of_decide_eq_true hupper
      omega
    · rw [Char.isLower, Bool.and_eq_true] at hlower
      have hlow : 97 ≤ c.toNat := of_decide_eq_true hlower.1
      have hhigh : c.toNat ≤ 122 := of_decide_eq_true hlower.2
      omega

end PyText
