import DataRelay.Lib.Json
import DataRelay.Lib.JsonPath

/-! What a value that the database driver hands over becomes in an event. -/
namespace Sources

/-- A value as the driver hands it over. Numbers, dates and times carry the text that `repr`,
`isoformat` and `total_seconds` print; `other` is an object of any other class, with its `str`. -/
inductive DriverValue where
  | none
  | bool (b : Bool)
  | int (i : ℤ)
  | float (repr : String)
  | str (s : String)
  | decimal (text : String)
  | datetime (iso : String) (isAware : Bool)
  | date (iso : String)
  | time (iso : String)
  | timedelta (totalSeconds : String)
  | bytes (data : List UInt8)
  | dict (members : List (String × DriverValue))
  | list (items : List DriverValue)
  | other (text : String)

def base64Char (n : ℕ) : Char :=
  if n < 26 then Char.ofNat (65 + n)
  else if n < 52 then Char.ofNat (71 + n)
  else if n < 62 then Char.ofNat (n - 4)
  else if n = 62 then '+' else '/'

/-- `base64.b64encode`. -/
def base64Chars : List UInt8 → List Char
  | [] => []
  | [a] => [base64Char (a.toNat / 4), base64Char (a.toNat % 4 * 16), '=', '=']
  | [a, b] =>
    [base64Char (a.toNat / 4), base64Char (a.toNat % 4 * 16 + b.toNat / 16),
      base64Char (b.toNat % 16 * 4), '=']
  | a :: b :: c :: rest =>
    [base64Char (a.toNat / 4), base64Char (a.toNat % 4 * 16 + b.toNat / 16),
      base64Char (b.toNat % 16 * 4 + c.toNat / 64), base64Char (c.toNat % 64)] ++ base64Chars rest

mutual
/-- `_json_safe_value`. -/
def jsonSafeValue : DriverValue → Json
  | .none => .null
  | .bool b => .bool b
  | .int i => .int i
  | .float repr => .float repr
  | .str s => .str s
  | .decimal text => .str text
  | .datetime iso isAware => .str (if isAware then iso else iso ++ "Z")
  | .date iso => .str iso
  | .time iso => .str iso
  | .timedelta totalSeconds => .float totalSeconds
  | .bytes data =>
    .obj [("gdc_encoding", .str "base64"), ("data", .str (String.ofList (base64Chars data)))]
  | .dict members => .obj (jsonSafeMembers members)
  | .list items => .arr (jsonSafeItems items)
  | .other text => .str text

def jsonSafeMembers : List (String × DriverValue) → Json.Members
  | [] => []
  | (k, v) :: members => (k, jsonSafeValue v) :: jsonSafeMembers members

def jsonSafeItems : List DriverValue → List Json
  | [] => []
  | v :: items => jsonSafeValue v :: jsonSafeItems items
end

end Sources
