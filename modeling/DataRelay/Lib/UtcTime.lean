import Mathlib.Order.Basic
import Mathlib.Tactic

/-! Points in time by their calendar fields in UTC, with the text ISO 8601 gives them. The
order of the fields is the order in time. -/

def daysInMonth (year month : ℕ) : ℕ :=
  if month = 2 then if year % 4 = 0 ∧ (year % 100 ≠ 0 ∨ year % 400 = 0) then 29 else 28
  else if month = 4 ∨ month = 6 ∨ month = 9 ∨ month = 11 then 30 else 31

/-- A date and time of day in UTC, to the microsecond. -/
structure UtcTime where
  year : ℕ
  month : ℕ
  day : ℕ
  hour : ℕ
  minute : ℕ
  second : ℕ
  micro : ℕ := 0
  year_bounds : 1 ≤ year ∧ year < 10000 := by decide
  month_bounds : 1 ≤ month ∧ month < 13 := by decide
  day_bounds : 1 ≤ day ∧ day ≤ daysInMonth year month := by decide
  time_bounds : hour < 24 ∧ minute < 60 ∧ second < 60 ∧ micro < 1000000 := by decide
  deriving DecidableEq

theorem daysInMonth_le (year month : ℕ) : daysInMonth year month ≤ 31 := by
  unfold daysInMonth
  split_ifs <;> omega

namespace UtcTime

/-- The place of a time in the order of all. -/
def ordinal (t : UtcTime) : ℕ :=
  (((((t.year * 13 + t.month) * 32 + t.day) * 24 + t.hour) * 60 + t.minute) * 60 + t.second) *
    1000000 + t.micro

theorem ordinal_injective : Function.Injective ordinal := by
  rintro ⟨y, mo, d, h, mi, s, u, hy, hmo, hd, ht⟩
    ⟨y', mo', d', h', mi', s', u', hy', hmo', hd', ht'⟩ heq
  simp only [ordinal] at heq
  simp only [mk.injEq]
  have hlast := daysInMonth_le y mo
  have hlast' := daysInMonth_le y' mo'
  omega

instance : LinearOrder UtcTime := LinearOrder.lift' ordinal ordinal_injective

/-- The digits of a number in a field of fixed width. -/
def digits : (width : ℕ) → ℕ → List Char
  | 0, _ => []
  | width + 1, n => Char.ofNat (48 + n / 10 ^ width % 10) :: digits width n

/-- The text `isoformat` prints, with `Z` for the offset. -/
def isoChars (t : UtcTime) : List Char :=
  digits 4 t.year ++ '-' :: (digits 2 t.month ++ '-' :: (digits 2 t.day ++ 'T' ::
    (digits 2 t.hour ++ ':' :: (digits 2 t.minute ++ ':' :: (digits 2 t.second ++
      ((if t.micro = 0 then [] else '.' :: digits 6 t.micro) ++ ['Z']))))))

def isoText (t : UtcTime) : String := String.ofList t.isoChars

def digitValue (c : Char) : Option ℕ :=
  if 48 ≤ c.toNat ∧ c.toNat ≤ 57 then some (c.toNat - 48) else none

/-- Reads a field of fixed width on top of the number read so far. -/
def readNumber : (width acc : ℕ) → List Char → Option (ℕ × List Char)
  | 0, acc, cs => some (acc, cs)
  | _ + 1, _, [] => none
  | width + 1, acc, c :: cs => (digitValue c).bind fun d => readNumber width (acc * 10 + d) cs

def readChar (c : Char) : List Char → Option (List Char)
  | [] => none
  | d :: cs => if d = c then some cs else none

/-- The fraction of a second, when there is one. -/
def readMicro : List Char → Option (ℕ × List Char)
  | '.' :: cs => readNumber 6 0 cs
  | cs => some (0, cs)

def ofFields (y mo d h mi s u : ℕ) : Option UtcTime :=
  if hf : (1 ≤ y ∧ y < 10000) ∧ (1 ≤ mo ∧ mo < 13) ∧ (1 ≤ d ∧ d ≤ daysInMonth y mo) ∧
      h < 24 ∧ mi < 60 ∧ s < 60 ∧ u < 1000000 then
    some ⟨y, mo, d, h, mi, s, u, hf.1, hf.2.1, hf.2.2.1, hf.2.2.2⟩
  else none

/-- Reads the text of a time in UTC; other shapes of ISO 8601 are not read. -/
def ofIsoChars (cs : List Char) : Option UtcTime := do
  let (y, cs) ← readNumber 4 0 cs
  let cs ← readChar '-' cs
  let (mo, cs) ← readNumber 2 0 cs
  let cs ← readChar '-' cs
  let (d, cs) ← readNumber 2 0 cs
  let cs ← readChar 'T' cs
  let (h, cs) ← readNumber 2 0 cs
  let cs ← readChar ':' cs
  let (mi, cs) ← readNumber 2 0 cs
  let cs ← readChar ':' cs
  let (s, cs) ← readNumber 2 0 cs
  let (u, cs) ← readMicro cs
  let cs ← readChar 'Z' cs
  if cs = [] then ofFields y mo d h mi s u else none

theorem toNat_digit {n : ℕ} (h : n < 10) : (Char.ofNat (48 + n)).toNat = 48 + n := by
  interval_cases n <;> rfl

theorem digitValue_digit {n : ℕ} (h : n < 10) : digitValue (Char.ofNat (48 + n)) = some n := by
  rw [digitValue, toNat_digit h, if_pos (by omega)]
  simp

/-- A field is read back, after what was read before it. -/
theorem readNumber_digits (width acc n : ℕ) (rest : List Char) :
    readNumber width acc (digits width n ++ rest) =
      some (acc * 10 ^ width + n % 10 ^ width, rest) := by
  induction width generalizing acc with
  | zero => simp [readNumber, digits, Nat.mod_one]
  | succ width ih =>
    simp only [digits, List.cons_append, readNumber, digitValue_digit (Nat.mod_lt _ (by norm_num)),
      Option.bind_some, ih]
    congr 2
    rw [Nat.mod_pow_succ, pow_succ]
    ring

theorem readNumber_digits_of_lt {width n : ℕ} (h : n < 10 ^ width) (rest : List Char) :
    readNumber width 0 (digits width n ++ rest) = some (n, rest) := by
  rw [readNumber_digits, Nat.mod_eq_of_lt h, zero_mul, zero_add]

theorem bind_readNumber {β : Type} {width n : ℕ} (h : n < 10 ^ width) (rest : List Char)
    (f : ℕ × List Char → Option β) :
    (readNumber width 0 (digits width n ++ rest) >>= f) = f (n, rest) := by
  rw [readNumber_digits_of_lt h]
  rfl

@[simp] theorem readChar_cons (c : Char) (cs : List Char) : readChar c (c :: cs) = some cs := by
  simp [readChar]

theorem bind_readChar {β : Type} (c : Char) (cs : List Char) (f : List Char → Option β) :
    (readChar c (c :: cs) >>= f) = f cs := by
  rw [readChar_cons]
  rfl

theorem ofFields_self (t : UtcTime) :
    ofFields t.year t.month t.day t.hour t.minute t.second t.micro = some t := by
  have hf := And.intro t.year_bounds (And.intro t.month_bounds (And.intro t.day_bounds t.time_bounds))
  simp [ofFields, hf]

theorem readMicro_isoChars (t : UtcTime) :
    readMicro ((if t.micro = 0 then [] else '.' :: digits 6 t.micro) ++ ['Z']) =
      some (t.micro, ['Z']) := by
  have hlt := t.time_bounds.2.2.2
  split_ifs with hu
  · simp [readMicro, hu]
  · exact readNumber_digits_of_lt (by omega) _

/-- The text of a time is read back as that time. -/
theorem ofIsoChars_isoChars (t : UtcTime) : ofIsoChars t.isoChars = some t := by
  obtain ⟨hy, hmo, hd, hh, hmi, hs⟩ : t.year < 10 ^ 4 ∧ t.month < 10 ^ 2 ∧ t.day < 10 ^ 2 ∧
      t.hour < 10 ^ 2 ∧ t.minute < 10 ^ 2 ∧ t.second < 10 ^ 2 := by
    have hlast := daysInMonth_le t.year t.month
    have := t.year_bounds
    have := t.month_bounds
    have := t.day_bounds
    have := t.time_bounds
    omega
  unfold ofIsoChars isoChars
  simp only [↓bind_readNumber hy, ↓bind_readNumber hmo, ↓bind_readNumber hd, ↓bind_readNumber hh,
    ↓bind_readNumber hmi, ↓bind_readNumber hs, ↓bind_readChar, readMicro_isoChars,
    Option.bind_eq_bind, Option.bind_some, readChar_cons, ↓reduceIte, ofFields_self]

end UtcTime
