import DataRelay.Delivery.SendRoute
import DataRelay.Protection.FieldPathParser

/-! The schema observation walk: which field paths an event yields, and with which inferred
types. Beside the paths the walk keeps where it saw each of them. -/
namespace SchemaObservation
open JsonPath Delivery Protection

inductive InferredType where
  | null
  | boolean
  | integer
  | number
  | string
  | object
  | array
  | mixed
  deriving DecidableEq, Repr

def inferValueType : Json → InferredType
  | .null => .null
  | .bool _ => .boolean
  | .int _ => .integer
  | .float _ => .number
  | .str _ => .string
  | .obj _ => .object
  | .arr _ => .array

def mergeInferredTypes (existing : Option InferredType) (new : InferredType) : InferredType :=
  match existing with
  | none => new
  | some existing =>
    if existing = new then new
    else if existing = .mixed ∨ new = .mixed then .mixed
    else if (existing = .integer ∨ existing = .number) ∧ (new = .integer ∨ new = .number) then
      .number
    else if new = .null then existing
    else if existing = .null then new
    else .mixed

/-- Lower-case hexadecimal digit. -/
def hexDigit (n : ℕ) : Char :=
  if n < 10 then Char.ofNat (48 + n) else Char.ofNat (87 + n)

/-- One character of a quoted member. -/
def encodeChar (c : Char) : List Char :=
  if c = backslash then [backslash, backslash]
  else if c = singleQuote then [backslash, singleQuote]
  else if c.toNat = 8 then [backslash, 'b']
  else if c.toNat = 12 then [backslash, 'f']
  else if c.toNat = 10 then [backslash, 'n']
  else if c.toNat = 13 then [backslash, 'r']
  else if c.toNat = 9 then [backslash, 't']
  else if c.toNat < 32 then
    [backslash, 'u', '0', '0', hexDigit (c.toNat / 16), hexDigit (c.toNat % 16)]
  else [c]

/-- What `_append_field_path` appends for a member. -/
def memberChars (key : String) : List Char :=
  if isPlainMember key.toList then '.' :: key.toList
  else ['[', singleQuote] ++ key.toList.flatMap encodeChar ++ [singleQuote, ']']

/-- `_append_field_path`. -/
def appendFieldPath (parent key : String) : String := parent ++ String.ofList (memberChars key)

/-- A place of the walk: the path so far, the selectors it spells, and where the value
stands. Only the path is the program's. -/
structure Place where
  path : String
  sels : List Sel
  pos : Pos
  deriving DecidableEq

namespace Place

def member (p : Place) (key : String) : Place :=
  ⟨appendFieldPath p.path key, p.sels ++ [.key key], p.pos ++ [.member key]⟩

/-- `path[]`, recorded for the list itself. -/
def array (p : Place) : Place := ⟨p.path ++ "[]", p.sels ++ [.wild], p.pos⟩

/-- The `n`-th item of a list recorded under `path[]`. -/
def item (p : Place) (n : ℕ) : Place := { p with pos := p.pos ++ [.item n] }

end Place

/-- `out` is the dictionary of the program; `sites` lists every recording made in it. -/
structure WalkState where
  out : List (String × InferredType) := []
  sites : List Place := []

def WalkState.record (st : WalkState) (p : Place) (type : InferredType) : WalkState where
  out := Dict.set p.path (mergeInferredTypes (Dict.get? p.path st.out) type) st.out
  sites := st.sites ++ [p]

def arraySampleSize : ℕ := 3

section Walk

variable (maxDepth maxPaths : ℕ)

mutual
/-- `walk_event_fields`. -/
def walkEventFields : Json → (depth : ℕ) → Place → WalkState → WalkState
  | v, depth, p, st =>
    if maxPaths ≤ st.out.length ∨ maxDepth < depth then st
    else
      let st := st.record p (inferValueType v)
      if maxPaths ≤ st.out.length then st
      else
        match v with
        | .obj ms => walkMembers ms (depth + 1) p st
        | .arr xs =>
          walkItems xs arraySampleSize 0 (depth + 1) p.array (st.record p.array .array)
        | _ => st

/-- The loop over the members of an object. -/
def walkMembers : Json.Members → (depth : ℕ) → Place → WalkState → WalkState
  | [], _, _, st => st
  | (key, child) :: ms, depth, p, st =>
    let st := walkEventFields child depth (p.member key) st
    if maxPaths ≤ st.out.length then st else walkMembers ms depth p st

/-- The loop over the first `left` items of a list; `n` is the subscript of the next one. -/
def walkItems : List Json → (left n depth : ℕ) → Place → WalkState → WalkState
  | [], _, _, _, _, st => st
  | _, 0, _, _, _, st => st
  | x :: xs, left + 1, n, depth, p, st =>
    let st :=
      match x with
      | .obj ms => walkMembers ms depth (p.item n) st
      | x => walkEventFields x depth (p.array.item n) st
    if maxPaths ≤ st.out.length then st else walkItems xs left (n + 1) depth p st
end

def collectPathsFromEvent (event : Json) : WalkState :=
  match event with
  | .obj ms => walkMembers maxDepth maxPaths ms 0 ⟨"$", [], []⟩ {}
  | v => walkEventFields maxDepth maxPaths v 0 ⟨"$", [], []⟩ {}

end Walk

section Merge

variable (maxDepth maxPaths : ℕ)

/-- The merge of what the events yield; it stops once `maxPaths` paths are merged. -/
def mergePaths : List (String × InferredType) → List (String × InferredType) →
    List (String × InferredType)
  | [], merged => merged
  | (path, type) :: found, merged =>
    let merged := Dict.set path (mergeInferredTypes (Dict.get? path merged) type) merged
    if maxPaths ≤ merged.length then merged else mergePaths found merged

def collectPathsFromEvents (maxEvents : ℕ) (events : List Json) : List (String × InferredType) :=
  mergePaths maxPaths
    ((events.take maxEvents).flatMap fun event => (collectPathsFromEvent maxDepth maxPaths event).out)
    []

end Merge

end SchemaObservation
