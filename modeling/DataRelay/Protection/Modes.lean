import DataRelay.Lib.PyText
import DataRelay.Protection.Rules

/-! What each protection mode makes of a value. The keyed digest and the identity vault are
parameters. -/
namespace Protection

def maskLiteral : String := "********"

/-- The zeros of the Unicode decimal digit runs. -/
def digitZeros : List ℕ :=
  [0x30, 0x660, 0x6F0, 0x7C0, 0x966, 0x9E6, 0xA66, 0xAE6, 0xB66, 0xBE6, 0xC66, 0xCE6, 0xD66,
   0xDE6, 0xE50, 0xED0, 0xF20, 0x1040, 0x1090, 0x17E0, 0x1810, 0x1946, 0x19D0, 0x1A80, 0x1A90,
   0x1B50, 0x1BB0, 0x1C40, 0x1C50, 0xA620, 0xA8D0, 0xA900, 0xA9D0, 0xA9F0, 0xAA50, 0xABF0,
   0xFF10, 0x104A0, 0x10D30, 0x11066, 0x110F0, 0x11136, 0x111D0, 0x112F0, 0x11450, 0x114D0,
   0x11650, 0x116C0, 0x11730, 0x118E0, 0x11950, 0x11C50, 0x11D50, 0x11DA0, 0x16A60, 0x16AC0,
   0x16B50, 0x1D7CE, 0x1D7D8, 0x1D7E2, 0x1D7EC, 0x1D7F6, 0x1E140, 0x1E2F0, 0x1E950, 0x1FBF0]

/-- A character `\d` matches. -/
def isDecimal (c : Char) : Bool :=
  digitZeros.any fun z => decide (z ≤ c.toNat) && decide (c.toNat < z + 10)

/-- The answers the surroundings give to the modes for one stream. -/
structure ModeContext where
  /-- The hex digest of the stream's keyed hash. -/
  hmacHex : String → String
  /-- `get_or_create_token` on a path and a stripped value; an error when it raises. -/
  vaultToken : String → String → Except String String

def fullMaskValue : Json → Json
  | .null => .null
  | .str _ => .str maskLiteral
  | .bool _ => .bool false
  | .int _ => .null
  | .float _ => .null
  | .obj _ => .obj []
  | .arr _ => .arr []

/-- `_EMAIL_RE` on a stripped text. -/
def matchesEmail (text : List Char) : Bool :=
  let localPart := text.takeWhile (· ≠ '@')
  let domain := (text.dropWhile (· ≠ '@')).drop 1
  !localPart.isEmpty && decide ('@' ∈ text) && decide ('@' ∉ domain) &&
    !text.any PyText.isSpace && decide ('.' ∈ (domain.drop 1).dropLast)

/-- `_partial_mask_email` on a text the pattern matched. -/
def partialMaskEmail (text : List Char) : String :=
  let localPart := text.takeWhile (· ≠ '@')
  let domain := (text.dropWhile (· ≠ '@')).drop 1
  let tld := domain.reverse.takeWhile (· ≠ '.') |>.reverse
  let firstLabel := domain.takeWhile (· ≠ '.')
  String.ofList (localPart.take 1 ++ "***@".toList ++ firstLabel.take 1 ++ "***.".toList ++ tld)

def lastChars (n : ℕ) (cs : List Char) : List Char := cs.drop (cs.length - n)

def partialMaskText (text : List Char) : String :=
  if text.isEmpty then maskLiteral
  else if matchesEmail text then partialMaskEmail text
  else
    let digits := text.filter isDecimal
    if 7 ≤ digits.length then "***" ++ String.ofList (lastChars 4 digits)
    else if text.length ≤ 4 then maskLiteral
    else "*******" ++ String.ofList (lastChars 4 text)

def partialMaskValue : Json → Json
  | .str s => .str (partialMaskText (PyText.stripChars s.toList))
  | v => fullMaskValue v

def hashMaskValue (ctx : ModeContext) : Json → Json
  | .str s => .str ("sha256:" ++ ctx.hmacHex s)
  | v => fullMaskValue v

def tokenizeValue (ctx : ModeContext) (fieldPath : String) : Json → Except String Json
  | .str s =>
    if (PyText.strip s).isEmpty then .ok (.str maskLiteral)
    else (ctx.vaultToken (PyText.strip fieldPath) (PyText.strip s)).map .str
  | v => .ok (fullMaskValue v)

/-- `apply_protection_mode`. -/
def applyProtectionMode (ctx : ModeContext) (fieldPath : String) (mode : ProtectionMode)
    (value : Json) : Except String Json :=
  match mode with
  | .fullMask => .ok (fullMaskValue value)
  | .partialMask => .ok (partialMaskValue value)
  | .hash => .ok (hashMaskValue ctx value)
  | .tokenization => tokenizeValue ctx fieldPath value
  | mode => .error ("unsupported protection_mode: '" ++ mode.name ++ "'")

end Protection
