import Mathlib.Data.List.DropRight

/-! Text operations with the reach a Unicode scripting language gives them. -/
namespace PyText

/-- The characters `str.isspace` accepts. -/
def isSpace (c : Char) : Bool :=
  (9 ≤ c.toNat && c.toNat ≤ 13) || (28 ≤ c.toNat && c.toNat ≤ 32) || c.toNat == 0x85 ||
    c.toNat == 0xA0 || c.toNat == 0x1680 || (0x2000 ≤ c.toNat && c.toNat ≤ 0x200A) ||
    c.toNat == 0x2028 || c.toNat == 0x2029 || c.toNat == 0x202F || c.toNat == 0x205F ||
    c.toNat == 0x3000

def stripChars (cs : List Char) : List Char := (cs.dropWhile isSpace).rdropWhile isSpace

/-- `str.strip()`. -/
def strip (s : String) : String := String.ofList (stripChars s.toList)

/-- `str.lower()` as far as a comparison with ASCII words can tell: the Kelvin sign is the
only other letter with an ASCII lower case. -/
def lower (s : String) : String := s.map fun c => if c.toNat = 0x212A then 'k' else c.toLower

/-- The upper case of a character, where it is not one letter of its own: the dotless i, the
long s, the sharp s and the Latin ligatures have upper cases in ASCII. -/
def upperChar (c : Char) : List Char :=
  match c.toNat with
  | 0x131 => ['I']
  | 0x17F => ['S']
  | 0xDF => ['S', 'S']
  | 0xFB00 => ['F', 'F']
  | 0xFB01 => ['F', 'I']
  | 0xFB02 => ['F', 'L']
  | 0xFB03 => ['F', 'F', 'I']
  | 0xFB04 => ['F', 'F', 'L']
  | 0xFB05 => ['S', 'T']
  | 0xFB06 => ['S', 'T']
  | _ => [c.toUpper]

/-- `str.upper()` as far as a comparison with ASCII words can tell. -/
def upper (s : String) : String := String.ofList (s.toList.flatMap upperChar)

/-- The characters `str.splitlines` ends a line at. -/
def isLineBreak (c : Char) : Bool :=
  (10 ≤ c.toNat && c.toNat ≤ 13) || (28 ≤ c.toNat && c.toNat ≤ 30) || c.toNat == 0x85 ||
    c.toNat == 0x2028 || c.toNat == 0x2029

/-- The lines of a text after the characters `line` of its first line; a carriage return and the
line feed after it are one break. -/
def splitLines (line : List Char) : List Char → List (List Char)
  | [] => if line = [] then [] else [line]
  | '\r' :: '\n' :: cs => line :: splitLines [] cs
  | c :: cs =>
    if isLineBreak c then line :: splitLines [] cs else splitLines (line ++ [c]) cs

/-- `str.splitlines()`. -/
def lines (s : String) : List String := (splitLines [] s.toList).map String.ofList

example : lines "a\r\nb\n\nc" = ["a", "b", "", "c"] := by rfl

/-- Dropping from the back leaves a clean front clean. -/
theorem dropWhile_rdropWhile {α : Type*} (p : α → Bool) (l : List α) (h : l.dropWhile p = l) :
    (l.rdropWhile p).dropWhile p = l.rdropWhile p := by
  rw [List.dropWhile_eq_self_iff] at h ⊢
  intro hl
  have hpre := List.rdropWhile_prefix p (l := l)
  have hlt : 0 < l.length := hl.trans_le hpre.length_le
  rw [hpre.getElem hl]
  exact h hlt

/-- A text with no blank at either end is its own `strip`. -/
theorem stripChars_eq_self {cs : List Char} (hhead : ∀ c ∈ cs.head?, isSpace c = false)
    (hlast : ∀ c ∈ cs.getLast?, isSpace c = false) : stripChars cs = cs := by
  have hdrop : cs.dropWhile isSpace = cs := by
    cases cs with
    | nil => rfl
    | cons c cs => simp [List.dropWhile, hhead c rfl]
  rw [stripChars, hdrop, List.rdropWhile_eq_self_iff]
  intro hne
  simp [hlast _ (List.getLast?_eq_getLast_of_ne_nil hne)]

theorem stripChars_idem (cs : List Char) : stripChars (stripChars cs) = stripChars cs := by
  unfold stripChars
  rw [dropWhile_rdropWhile isSpace _ (List.dropWhile_idempotent isSpace cs), List.rdropWhile_idempotent]

@[simp] theorem strip_strip (s : String) : strip (strip s) = strip s := by
  simp [strip, stripChars_idem]

end PyText
