import DataRelay.Lib.PyText
import DataRelay.Lib.JsonPath

/-! The protection field path grammar: dotted members, quoted members, subscripts and the
`[]` wildcard. Scanners carry the number of characters left as fuel. -/
namespace Protection
open JsonPath

def singleQuote : Char := Char.ofNat 39
def doubleQuote : Char := Char.ofNat 34
def backslash : Char := Char.ofNat 92

def isQuote (c : Char) : Bool := c = singleQuote || c = doubleQuote

/-- `_SIMPLE_ESCAPES`. -/
def simpleEscape (c : Char) : Option Char :=
  if c = backslash || c = singleQuote || c = doubleQuote || c = '/' then some c
  else if c = 'b' then some (Char.ofNat 8)
  else if c = 'f' then some (Char.ofNat 12)
  else if c = 'n' then some (Char.ofNat 10)
  else if c = 'r' then some (Char.ofNat 13)
  else if c = 't' then some (Char.ofNat 9)
  else none

def hexValue (c : Char) : Option ℕ :=
  if '0' ≤ c ∧ c ≤ '9' then some (c.toNat - 48)
  else if 'a' ≤ c ∧ c ≤ 'f' then some (c.toNat - 87)
  else if 'A' ≤ c ∧ c ≤ 'F' then some (c.toNat - 55)
  else none

/-- `_unicode_escape` on what follows the `u`. -/
def unicodeEscape : List Char → Except String (ℕ × List Char)
  | a :: b :: c :: d :: rest =>
    match hexValue a, hexValue b, hexValue c, hexValue d with
    | some a, some b, some c, some d => .ok (((a * 16 + b) * 16 + c) * 16 + d, rest)
    | _, _, _, _ => .error "Invalid Unicode escape in Protection field path"
  | _ => .error "Invalid Unicode escape in Protection field path"

/-- The code point of a `u` escape, with its low half when it starts a surrogate pair. -/
def escapedCodepoint (cs : List Char) : Except String (ℕ × List Char) := do
  let (cp, cs) ← unicodeEscape cs
  if 0xD800 ≤ cp ∧ cp ≤ 0xDBFF then
    match cs with
    | b :: u :: cs =>
      if b = backslash ∧ u = 'u' then
        let (low, cs) ← unicodeEscape cs
        if 0xDC00 ≤ low ∧ low ≤ 0xDFFF then
          .ok (0x10000 + (cp - 0xD800) * 1024 + (low - 0xDC00), cs)
        else .error "Invalid low surrogate in Protection field path"
      else .error "Missing low surrogate in Protection field path"
    | _ => .error "Missing low surrogate in Protection field path"
  else if 0xDC00 ≤ cp ∧ cp ≤ 0xDFFF then
    .error "Unpaired low surrogate in Protection field path"
  else .ok (cp, cs)

/-- The loop of `_read_quoted_key`: the decoded member and what follows the closing quote. -/
def readQuoted (quote : Char) : (fuel : ℕ) → List Char → Except String (List Char × List Char)
  | _, [] => .error "Unterminated quoted member in Protection field path"
  | 0, _ => .error "Unterminated quoted member in Protection field path"
  | fuel + 1, c :: cs =>
    if c = quote then .ok ([], cs)
    else if c ≠ backslash then
      if c.toNat < 32 then .error "Unescaped control character in Protection field path"
      else do
        let (value, rest) ← readQuoted quote fuel cs
        return (c :: value, rest)
    else
      match cs with
      | [] => .error "Unterminated escape in Protection field path"
      | esc :: cs =>
        match simpleEscape esc with
        | some d => do
          let (value, rest) ← readQuoted quote fuel cs
          return (d :: value, rest)
        | none =>
          if esc ≠ 'u' then .error "Unsupported escape in Protection field path"
          else do
            let (cp, cs) ← escapedCodepoint cs
            let (value, rest) ← readQuoted quote fuel cs
            return (Char.ofNat cp :: value, rest)

/-- `_read_quoted_key`; the literal member `[]` is refused. -/
def readQuotedKey (quote : Char) (cs : List Char) : Except String (String × List Char) := do
  let (value, rest) ← readQuoted quote cs.length cs
  if value = ['[', ']'] then
    .error "Ambiguous literal '[]' member requires a versioned path"
  else return (String.ofList value, rest)

def isAsciiDigit (c : Char) : Bool := decide ('0' ≤ c) && decide (c ≤ '9')

def isPlainStart (c : Char) : Bool :=
  (decide ('A' ≤ c) && decide (c ≤ 'Z')) || (decide ('a' ≤ c) && decide (c ≤ 'z')) || c = '_'

/-- A plain ASCII member name. -/
def isPlainMember : List Char → Bool
  | [] => false
  | c :: cs => isPlainStart c && cs.all fun d => isPlainStart d || isAsciiDigit d

def naturalIndex (cs : List Char) : Option ℕ :=
  match cs with
  | [] => none
  | c :: rest =>
    if c = '0' then (if rest.isEmpty then some 0 else none)
    else if (c :: rest).all isAsciiDigit then
      some ((c :: rest).foldl (fun n d => n * 10 + (d.toNat - 48)) 0)
    else none

/-- `_INTEGER_INDEX`. -/
def integerIndex (cs : List Char) : Option ℤ :=
  match cs with
  | '-' :: rest => (naturalIndex rest).map fun n => -(n : ℤ)
  | _ => (naturalIndex cs).map fun n => (n : ℤ)

/-- The characters of a dotted member. -/
def nameChar (c : Char) : Bool := decide (c ≠ '.') && decide (c ≠ '[')

/-- A bracket selector that is neither a wildcard nor quoted. -/
def bareSelector (cs : List Char) : Except String (Sel × List Char) :=
  if ']' ∉ cs then .error "Unclosed bracket in Protection field path"
  else
    let token := cs.takeWhile (· ≠ ']')
    let rest := (cs.dropWhile (· ≠ ']')).drop 1
    match integerIndex token with
    | some i => .ok (.index i, rest)
    | none =>
      if isPlainMember token then .ok (.key (String.ofList token), rest)
      else .error "Unsupported Protection path bracket selector"

/-- What follows an opening bracket. -/
def bracketSelector (cs : List Char) : Except String (Sel × List Char) :=
  match cs with
  | ']' :: rest => .ok (.wild, rest)
  | '*' :: ']' :: rest => .ok (.wild, rest)
  | ':' :: ']' :: rest => .ok (.wild, rest)
  | ':' :: ':' :: ']' :: rest => .ok (.wild, rest)
  | c :: rest =>
    if isQuote c then
      match readQuotedKey c rest with
      | .error e => .error e
      | .ok (member, ']' :: rest) => .ok (.key member, rest)
      | .ok _ => .error "Missing bracket after quoted Protection member"
    else bareSelector cs
  | [] => bareSelector cs

/-- The selector at the front of `cs`. -/
def nextSelector : List Char → Except String (Sel × List Char)
  | '.' :: cs =>
    let name := cs.takeWhile nameChar
    if name.isEmpty || name.contains ']' then
      .error "Invalid dot-notation Protection field path"
    else .ok (.key (String.ofList name), cs.dropWhile nameChar)
  | '[' :: cs => bracketSelector cs
  | _ => .error "Invalid Protection field path selector"

/-- The token loop of `parse_protection_path`. -/
def parseTokens : (fuel : ℕ) → List Char → Except String (List Sel)
  | _, [] => .ok []
  | 0, _ => .error "Invalid Protection field path selector"
  | fuel + 1, c :: cs => do
    let (sel, rest) ← nextSelector (c :: cs)
    let sels ← parseTokens fuel rest
    return sel :: sels

/-- The text both scanners work on: stripped, with a leading `$.` supplied. -/
def pathChars (path : String) : List Char :=
  let text := PyText.stripChars path.toList
  if text.head? = some '$' then text else '$' :: '.' :: text

/-- `parse_protection_path`. -/
def parseProtectionPath (path : String) : Except String (List Sel) :=
  if (PyText.stripChars path.toList).isEmpty then .ok []
  else parseTokens (pathChars path).length ((pathChars path).drop 1)

/-- The inner loop of `_quoted_selector_flags`: what follows the closing quote. -/
def skipQuoted (quote : Char) : List Char → Option (List Char)
  | [] => none
  | c :: cs =>
    if c = backslash then
      match cs with
      | [] => none
      | _ :: cs => skipQuoted quote cs
    else if c = quote then some cs
    else skipQuoted quote cs

/-- Whether the selector at the front of `cs` is quoted, and what follows it. -/
def nextFlag : List Char → Except String (Bool × List Char)
  | '.' :: cs => .ok (false, cs.dropWhile nameChar)
  | '[' :: c :: cs =>
    if isQuote c then
      match skipQuoted c cs with
      | some (']' :: rest) => .ok (true, rest)
      | _ => .error "Malformed quoted Protection selector"
    else if ']' ∈ c :: cs then .ok (false, ((c :: cs).dropWhile (· ≠ ']')).drop 1)
    else .error "Unclosed Protection selector"
  | '[' :: [] => .error "Unclosed Protection selector"
  | _ => .error "Unexpected Protection selector boundary"

def flagTokens : (fuel : ℕ) → List Char → Except String (List Bool)
  | _, [] => .ok []
  | 0, _ => .error "Unexpected Protection selector boundary"
  | fuel + 1, c :: cs => do
    let (flag, rest) ← nextFlag (c :: cs)
    let flags ← flagTokens fuel rest
    return flag :: flags

/-- `_quoted_selector_flags`. -/
def quotedSelectorFlags (path : String) : Except String (List Bool) :=
  flagTokens (pathChars path).length ((pathChars path).drop 1)

end Protection
