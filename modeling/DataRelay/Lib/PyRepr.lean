import DataRelay.Lib.JsonText
import DataRelay.Lib.LetterCase

/-! JSON values as a scripting language prints them. Whether a character beyond ASCII prints is
left to a table. -/
namespace PyRepr

variable (printable : Char → Bool)

/-- The last `width` hexadecimal digits of a number. -/
def hexDigits : (width : ℕ) → ℕ → List Char
  | 0, _ => []
  | width + 1, n => Json.hexDigit (n / 16 ^ width % 16) :: hexDigits width n

def escapeChar (quote c : Char) : List Char :=
  if c = quote ∨ c = '\\' then ['\\', c]
  else if c = '\t' then ['\\', 't']
  else if c = '\n' then ['\\', 'n']
  else if c = '\r' then ['\\', 'r']
  else if c.toNat < 32 ∨ c.toNat = 127 then '\\' :: 'x' :: hexDigits 2 c.toNat
  else if c.toNat < 127 ∨ printable c then [c]
  else if c.toNat < 256 then '\\' :: 'x' :: hexDigits 2 c.toNat
  else if c.toNat < 65536 then '\\' :: 'u' :: hexDigits 4 c.toNat
  else '\\' :: 'U' :: hexDigits 8 c.toNat

def singleQuote : Char := Char.ofNat 39
def doubleQuote : Char := Char.ofNat 34

/-- Single quotes, unless the text has some and no double quote. -/
def quoteFor (cs : List Char) : Char :=
  if singleQuote ∈ cs ∧ doubleQuote ∉ cs then doubleQuote else singleQuote

/-- `repr` of a string. -/
def reprStr (s : String) : String :=
  let quote := quoteFor s.toList
  String.ofList (quote :: s.toList.flatMap (escapeChar printable quote) ++ [quote])

mutual
/-- `repr(value)`. -/
def reprText : Json → String
  | .null => "None"
  | .bool b => if b then "True" else "False"
  | .int i => toString i
  | .float repr => repr
  | .str s => reprStr printable s
  | .arr items => "[" ++ ", ".intercalate (reprItems items) ++ "]"
  | .obj members => "\x7b" ++ ", ".intercalate (reprMembers members) ++ "\x7d"

def reprItems : List Json → List String
  | [] => []
  | v :: vs => reprText v :: reprItems vs

def reprMembers : Json.Members → List String
  | [] => []
  | (k, v) :: ms => (reprStr printable k ++ ": " ++ reprText v) :: reprMembers ms
end

/-- `str(value)`. -/
def text : Json → String
  | .str s => s
  | v => reprText printable v

/-! ### What stays legible -/

/-- A character that no quoting escapes. -/
def LegibleChar (c : Char) : Prop :=
  32 ≤ c.toNat ∧ c.toNat < 127 ∧ c ≠ singleQuote ∧ c ≠ doubleQuote ∧ c ≠ '\\'

instance (c : Char) : Decidable (LegibleChar c) := inferInstanceAs (Decidable (_ ∧ _))

def Legible (marker : List Char) : Prop := ∀ c ∈ marker, LegibleChar c

instance (marker : List Char) : Decidable (Legible marker) :=
  List.decidableBAll LegibleChar marker

section Legible

variable {printable} {marker : List Char}

theorem quoteFor_cases (cs : List Char) :
    quoteFor cs = singleQuote ∨ quoteFor cs = doubleQuote := by
  unfold quoteFor
  split_ifs
  · exact .inr rfl
  · exact .inl rfl

theorem escapeChar_legible {quote c : Char} (hquote : c ≠ quote) (hslash : c ≠ '\\')
    (hlo : 32 ≤ c.toNat) (hhi : c.toNat < 127) : escapeChar printable quote c = [c] := by
  have hne : ∀ d : Char, d.toNat < 32 → c ≠ d := by
    rintro d hd rfl
    omega
  unfold escapeChar
  rw [if_neg (by simp [hquote, hslash]), if_neg (hne '\t' (by decide)),
    if_neg (hne '\n' (by decide)), if_neg (hne '\r' (by decide)), if_neg (by omega),
    if_pos (.inl hhi)]

theorem flatMap_legible (h : Legible marker) (cs : List Char) :
    marker.flatMap (escapeChar printable (quoteFor cs)) = marker := by
  induction marker with
  | nil => rfl
  | cons c m ih =>
    obtain ⟨hlo, hhi, hsingle, hdouble, hslash⟩ := h c List.mem_cons_self
    have hquote : c ≠ quoteFor cs := by
      rcases quoteFor_cases cs with hq | hq
      · rwa [hq]
      · rwa [hq]
    rw [List.flatMap_cons, escapeChar_legible hquote hslash hlo hhi,
      ih fun d hd => h d (List.mem_cons_of_mem c hd)]
    rfl

/-- A legible part of a string is in its `repr`. -/
theorem infix_reprStr (h : Legible marker) {s : String} (hin : marker <:+: s.toList) :
    marker <:+: (reprStr printable s).toList := by
  obtain ⟨front, back, hs⟩ := hin
  let escaped := fun cs : List Char => cs.flatMap (escapeChar printable (quoteFor s.toList))
  have hflat : escaped s.toList = escaped front ++ marker ++ escaped back := by
    calc escaped s.toList = escaped (front ++ marker ++ back) := by rw [hs]
      _ = escaped front ++ escaped marker ++ escaped back := by
        simp only [escaped, List.flatMap_append]
      _ = escaped front ++ marker ++ escaped back := by
        rw [show escaped marker = marker from flatMap_legible h s.toList]
  refine ⟨quoteFor s.toList :: escaped front, escaped back ++ [quoteFor s.toList], ?_⟩
  show _ = (String.ofList (quoteFor s.toList :: escaped s.toList ++ [quoteFor s.toList])).toList
  rw [String.toList_ofList, hflat]
  simp

theorem infix_joined {parts : List String} {part before sep after : String} (h : part ∈ parts) :
    part.toList <:+: (before ++ sep.intercalate parts ++ after).toList := by
  have hin : part.toList <:+: sep.toList.intercalate (parts.map String.toList) :=
    PyText.infix_intercalate (List.mem_map_of_mem h)
  obtain ⟨front, back, hparts⟩ := hin
  refine ⟨before.toList ++ front, back ++ after.toList, ?_⟩
  rw [String.toList_append, String.toList_append, String.toList_intercalate, ← hparts]
  simp

theorem mem_reprItems {items : List Json} {v : Json} (h : v ∈ items) :
    reprText printable v ∈ reprItems printable items := by
  induction items with
  | nil => cases h
  | cons w items ih =>
    rw [reprItems]
    rcases List.mem_cons.mp h with rfl | h
    · exact List.mem_cons_self
    · exact List.mem_cons_of_mem _ (ih h)

theorem mem_reprMembers {members : Json.Members} {k : String} {v : Json} (h : (k, v) ∈ members) :
    reprStr printable k ++ ": " ++ reprText printable v ∈ reprMembers printable members := by
  induction members with
  | nil => cases h
  | cons m members ih =>
    obtain ⟨l, w⟩ := m
    rw [reprMembers]
    rcases List.mem_cons.mp h with heq | h
    · cases heq
      exact List.mem_cons_self
    · exact List.mem_cons_of_mem _ (ih h)

/-- What is legible in an item is legible in the list. -/
theorem infix_reprText_item {items : List Json} {v : Json} (h : v ∈ items)
    (hin : marker <:+: (reprText printable v).toList) :
    marker <:+: (reprText printable (.arr items)).toList := by
  rw [reprText]
  exact hin.trans (infix_joined (mem_reprItems h))

theorem infix_reprText_member {members : Json.Members} {k : String} {v : Json}
    (h : (k, v) ∈ members) (hin : marker <:+: (reprText printable v).toList) :
    marker <:+: (reprText printable (.obj members)).toList := by
  rw [reprText]
  refine List.IsInfix.trans ?_ (infix_joined (mem_reprMembers h))
  rw [String.toList_append]
  exact hin.trans (List.suffix_append _ _).isInfix

end Legible

end PyRepr
