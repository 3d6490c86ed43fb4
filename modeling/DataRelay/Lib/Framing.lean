import Mathlib.Data.List.Basic
import Mathlib.Data.String.Basic
import Mathlib.Tactic

/-! Records in a stream: each ended by a symbol that none of them holds, or announced by its
length in decimal digits. -/
namespace Framing

/-! ### Terminated records -/

section Terminated
variable {α : Type*}

/-- Every record is followed by the terminator. -/
def terminated (stop : α) (records : List (List α)) : List α := records.flatMap (· ++ [stop])

theorem terminated_eq_intercalate (stop : α) (records : List (List α)) :
    terminated stop records = [stop].intercalate (records ++ [[]]) := by
  induction records with
  | nil => rfl
  | cons r records ih =>
    have hne : records ++ [[]] ≠ [] := by simp
    rw [List.cons_append, List.intercalate_cons_of_ne_nil hne, ← ih]
    simp [terminated]

/-- Splitting at the terminator gives the records back, and nothing after the last. -/
theorem splitOn_terminated [BEq α] [LawfulBEq α] {stop : α} {records : List (List α)}
    (h : ∀ r ∈ records, stop ∉ r) :
    (terminated stop records).splitOn stop = records ++ [[]] := by
  rw [terminated_eq_intercalate]
  apply List.splitOn_intercalate stop
  · intro r hr
    rcases List.mem_append.mp hr with hr | hr
    · exact h r hr
    · rw [List.mem_singleton.mp hr]
      exact List.not_mem_nil
  · simp

end Terminated

/-! ### Joined records -/

section Joined
variable {α : Type*} [BEq α] [LawfulBEq α]

omit [LawfulBEq α] in
theorem length_splitOn (stop : α) (l : List α) : (l.splitOn stop).length = l.count stop + 1 := by
  induction l with
  | nil => rfl
  | cons x l ih =>
    rw [List.splitOn_cons_eq_if_modifyHead, List.count_cons]
    by_cases hx : (x == stop) = true
    · rw [if_pos hx, if_pos hx, List.length_cons, ih]
    · rw [if_neg hx, if_neg hx, List.length_modifyHead, ih]

theorem count_intercalate (stop : α) {records : List (List α)} (h : records ≠ []) :
    ([stop].intercalate records).count stop + 1 =
      (records.map (List.count stop)).sum + records.length := by
  induction records with
  | nil => exact absurd rfl h
  | cons r records ih =>
    cases records with
    | nil => simp
    | cons r' records =>
      have hrest := ih (List.cons_ne_nil r' records)
      rw [List.intercalate_cons_cons, List.count_append, List.count_append, List.map_cons,
        List.sum_cons, List.length_cons, List.count_singleton_self]
      omega

/-- Joined records split into as many parts exactly where none of them holds the separator. -/
theorem length_splitOn_intercalate_iff (stop : α) {records : List (List α)} (h : records ≠ []) :
    (([stop].intercalate records).splitOn stop).length = records.length ↔
      ∀ r ∈ records, stop ∉ r := by
  have hcount := count_intercalate stop h
  rw [length_splitOn, hcount]
  constructor
  · intro hlen r hr
    have hsum : (records.map (List.count stop)).sum = 0 := by omega
    have hzero := List.sum_eq_zero_iff.mp hsum (r.count stop) (List.mem_map_of_mem hr)
    exact List.count_eq_zero.mp hzero
  · intro hfree
    have hsum : (records.map (List.count stop)).sum = 0 := by
      apply List.sum_eq_zero_iff.mpr
      intro n hn
      obtain ⟨r, hr, rfl⟩ := List.mem_map.mp hn
      exact List.count_eq_zero.mpr (hfree r hr)
    omega

end Joined
/-! ### Lines of UTF-8 -/

def encodeUtf8 (text : String) : List UInt8 := text.toList.flatMap String.utf8EncodeChar

theorem encodeUtf8_append (a b : String) : encodeUtf8 (a ++ b) = encodeUtf8 a ++ encodeUtf8 b := by
  rw [encodeUtf8, String.toList_append, List.flatMap_append]
  rfl

/-- The byte of a line feed encodes only the line feed. -/
theorem ten_mem_utf8EncodeChar {c : Char} (h : (10 : UInt8) ∈ String.utf8EncodeChar c) :
    c = '\n' := by
  have hbyte (n : ℕ) (h : (10 : UInt8) = UInt8.ofNat n) : n % 256 = 10 := by
    have := congrArg UInt8.toNat h
    simpa using this.symm
  unfold String.utf8EncodeChar at h
  simp only at h
  split_ifs at h with h1 h2 h3
  · have hv := hbyte _ (List.mem_singleton.mp h)
    have hval : c.val.toNat = 10 := by omega
    exact Char.ext (UInt32.toNat_inj.mp hval)
  all_goals
    simp only [List.mem_cons, List.not_mem_nil, or_false] at h
    exfalso
  · rcases h with h | h
    all_goals
      have hv := hbyte _ h
      omega
  · rcases h with h | h | h
    all_goals
      have hv := hbyte _ h
      omega
  · rcases h with h | h | h | h
    all_goals
      have hv := hbyte _ h
      omega

/-! ### Octet counting -/

def isDigit (b : UInt8) : Bool := decide (48 ≤ b.toNat) && decide (b.toNat ≤ 57)

def digitByte (c : Char) : UInt8 := UInt8.ofNat c.toNat

/-- The length in decimal digits, a space, the message. -/
def octetCounted (message : List UInt8) : List UInt8 :=
  (Nat.toDigits 10 message.length).map digitByte ++ 32 :: message

def readLength (digits : List UInt8) : ℕ :=
  Nat.ofDigitChars 10 (digits.map fun b => Char.ofNat b.toNat) 0

/-- The first message of a stream, and the stream after it. -/
def takeMessage (stream : List UInt8) : Option (List UInt8 × List UInt8) :=
  match stream.dropWhile isDigit with
  | [] => none
  | space :: rest =>
    let n := readLength (stream.takeWhile isDigit)
    if space ≠ 32 ∨ n = 0 ∨ rest.length < n then none else some (rest.take n, rest.drop n)

/-- The messages of a stream, none where it is not one of counted messages. -/
def messagesFrom : (fuel : ℕ) → List UInt8 → Option (List (List UInt8))
  | _, [] => some []
  | 0, _ :: _ => none
  | fuel + 1, stream => (takeMessage stream).bind fun next =>
    (messagesFrom fuel next.2).map (next.1 :: ·)

def decodeOctets (stream : List UInt8) : Option (List (List UInt8)) :=
  messagesFrom stream.length stream

theorem digit_cases {c : Char} (h : c.isDigit = true) : 48 ≤ c.toNat ∧ c.toNat ≤ 57 := by
  simp only [Char.isDigit, Bool.and_eq_true, decide_eq_true_eq, ge_iff_le] at h
  exact ⟨UInt32.le_iff_toNat_le.mp h.1, UInt32.le_iff_toNat_le.mp h.2⟩

theorem toNat_digitByte {c : Char} (h : c.isDigit = true) : (digitByte c).toNat = c.toNat := by
  obtain ⟨-, hle⟩ := digit_cases h
  rw [digitByte, UInt8.toNat_ofNat']
  omega

theorem isDigit_digitByte {c : Char} (h : c.isDigit = true) : isDigit (digitByte c) = true := by
  rw [isDigit, toNat_digitByte h]
  simpa using digit_cases h

theorem readLength_digits (n : ℕ) :
    readLength ((Nat.toDigits 10 n).map digitByte) = n := by
  have hchars : ((Nat.toDigits 10 n).map digitByte).map (fun b => Char.ofNat b.toNat) =
      Nat.toDigits 10 n := by
    rw [List.map_map]
    refine (List.map_congr_left fun c hc => ?_).trans (List.map_id _)
    have hdigit : c.isDigit = true := Nat.isDigit_of_mem_toDigits (by omega) (by omega) hc
    rw [Function.comp_apply, toNat_digitByte hdigit, Char.ofNat_toNat, id]
  rw [readLength, hchars, Nat.ofDigitChars_ten_toDigits]

/-- The message in front of a stream is read off it whole. -/
theorem takeMessage_octetCounted {message : List UInt8} (h : message ≠ []) (rest : List UInt8) :
    takeMessage (octetCounted message ++ rest) = some (message, rest) := by
  have hdigits : ∀ b ∈ (Nat.toDigits 10 message.length).map digitByte, isDigit b = true := by
    intro b hb
    obtain ⟨c, hc, rfl⟩ := List.mem_map.mp hb
    exact isDigit_digitByte (Nat.isDigit_of_mem_toDigits (by omega) (by omega) hc)
  have hstream : octetCounted message ++ rest =
      (Nat.toDigits 10 message.length).map digitByte ++ 32 :: (message ++ rest) := by
    simp [octetCounted]
  have hspace : isDigit 32 = false := by decide
  have hdrop : (octetCounted message ++ rest).dropWhile isDigit = 32 :: (message ++ rest) := by
    rw [hstream, List.dropWhile_append_of_pos hdigits,
      List.dropWhile_cons_of_neg (by simp [hspace])]
  have htake : (octetCounted message ++ rest).takeWhile isDigit =
      (Nat.toDigits 10 message.length).map digitByte := by
    rw [hstream, List.takeWhile_append_of_pos hdigits,
      List.takeWhile_cons_of_neg (by simp [hspace]), List.append_nil]
  have hpos : message.length ≠ 0 := by
    rwa [ne_eq, List.length_eq_zero_iff]
  unfold takeMessage
  rw [hdrop, htake]
  simp only [readLength_digits]
  rw [if_neg (by simp [hpos]), List.take_left, List.drop_left]

theorem length_octetCounted_pos (message : List UInt8) : 0 < (octetCounted message).length := by
  simp [octetCounted]

theorem messagesFrom_octetCounted {messages : List (List UInt8)} (h : ∀ m ∈ messages, m ≠ [])
    {fuel : ℕ} (hfuel : messages.length ≤ fuel) :
    messagesFrom fuel (messages.flatMap octetCounted) = some messages := by
  induction messages generalizing fuel with
  | nil =>
    cases fuel with
    | zero => rfl
    | succ fuel => rfl
  | cons m messages ih =>
    obtain ⟨fuel, rfl⟩ : ∃ n, fuel = n + 1 := by
      rw [List.length_cons] at hfuel
      exact ⟨fuel - 1, by omega⟩
    have hle : messages.length ≤ fuel := by simpa using hfuel
    have hrest := ih (fun n hn => h n (List.mem_cons_of_mem m hn)) hle
    obtain ⟨b, bytes, hbytes⟩ : ∃ b bytes, (m :: messages).flatMap octetCounted = b :: bytes := by
      apply List.exists_cons_of_length_pos
      have hm := length_octetCounted_pos m
      rw [List.flatMap_cons, List.length_append]
      omega
    have htake := takeMessage_octetCounted (h m List.mem_cons_self) (messages.flatMap octetCounted)
    rw [← List.flatMap_cons, hbytes] at htake
    rw [hbytes, messagesFrom, htake, Option.bind_some, hrest, Option.map_some]
    · simp

/-- A decoder reads the messages back, whatever bytes they hold. -/
theorem decodeOctets_octetCounted {messages : List (List UInt8)} (h : ∀ m ∈ messages, m ≠ []) :
    decodeOctets (messages.flatMap octetCounted) = some messages := by
  apply messagesFrom_octetCounted h
  induction messages with
  | nil => exact Nat.zero_le _
  | cons m messages ih =>
    have hm := length_octetCounted_pos m
    have hrest := ih fun n hn => h n (List.mem_cons_of_mem m hn)
    rw [List.flatMap_cons, List.length_append, List.length_cons]
    omega

end Framing
