import DataRelay.Lib.LetterCase
import DataRelay.SchemaObservation.Visits

/-! Sensitive field detection: the string samples the pattern rules look at, and the last
segment of a path the name rules look at. -/
namespace SensitiveDetection
open JsonPath Protection PyText SchemaObservation

section Samples

variable (maxDepth maxPaths : ℕ)

def childPath (path key : String) : String :=
  if path ≠ "$" then path ++ "." ++ key else "$." ++ key

/-- `samples[path] = value` for the first value seen at a path. -/
def addSample (samples : List (String × String)) (path value : String) : List (String × String) :=
  if Dict.has path samples then samples else Dict.set path value samples

mutual
/-- `_walk` of `collect_string_samples_from_events`. -/
def sampleValue : Json → (path : String) → (depth : ℕ) → List (String × String) →
    List (String × String)
  | v, path, depth, samples =>
    if maxPaths ≤ samples.length ∨ maxDepth < depth then samples
    else
      match v with
      | .str s => addSample samples path s
      | .obj ms => sampleMembers ms path (depth + 1) samples
      | .arr xs => sampleItems xs 3 (path ++ "[]") (depth + 1) samples
      | _ => samples

/-- The loop over the members of an object. -/
def sampleMembers : Json.Members → (path : String) → (depth : ℕ) → List (String × String) →
    List (String × String)
  | [], _, _, samples => samples
  | (key, child) :: ms, path, depth, samples =>
    let samples := sampleValue child (childPath path key) depth samples
    if maxPaths ≤ samples.length then samples else sampleMembers ms path depth samples

/-- The loop over the first `left` items of a list. -/
def sampleItems : List Json → (left : ℕ) → (arrayPath : String) → (depth : ℕ) →
    List (String × String) → List (String × String)
  | [], _, _, _, samples => samples
  | _, 0, _, _, samples => samples
  | x :: xs, left + 1, arrayPath, depth, samples =>
    let samples :=
      match x with
      | .obj ms => sampleItemMembers ms arrayPath depth samples
      | x => sampleValue x (arrayPath ++ "[]") depth samples
    if maxPaths ≤ samples.length then samples else sampleItems xs left arrayPath depth samples

/-- The loop over the members of an item, which does not look at the number of samples. -/
def sampleItemMembers : Json.Members → (arrayPath : String) → (depth : ℕ) →
    List (String × String) → List (String × String)
  | [], _, _, samples => samples
  | (key, child) :: ms, arrayPath, depth, samples =>
    sampleItemMembers ms arrayPath depth
      (sampleValue child (arrayPath ++ "." ++ key) depth samples)
end

def sampleEvent (samples : List (String × String)) (event : Json) : List (String × String) :=
  match event with
  | .obj ms => sampleMembers maxDepth maxPaths ms "$" 0 samples
  | v => sampleValue maxDepth maxPaths v "$" 0 samples

def collectStringSamplesFromEvents (maxEvents : ℕ) (events : List Json) : List (String × String) :=
  (events.take maxEvents).foldl (sampleEvent maxDepth maxPaths) []

end Samples

/-- `text.replace("[]", "")`. -/
def dropPairs : List Char → List Char
  | [] => []
  | '[' :: ']' :: cs => dropPairs cs
  | c :: cs => c :: dropPairs cs

/-- A path without its root. -/
def pathRemainder (fieldPath : List Char) : List Char :=
  match fieldPath with
  | '$' :: '.' :: rest => rest
  | '$' :: rest => rest.dropWhile (· = '.')
  | _ => fieldPath

/-- `leaf_segment`. -/
def leafSegment (T : CaseTable) (fieldPath : String) : String :=
  if fieldPath = "$" then ""
  else if pathRemainder fieldPath.toList = [] then ""
  else
    T.lowerText (String.ofList
      (dropPairs ((pathRemainder fieldPath.toList).rtakeWhile (· ≠ '.'))))

section Plain

variable (maxDepth : ℕ)

mutual
/-- The object keys the walk comes upon in a value are plain: ASCII letters, digits and
underscores, no digit first. -/
def PlainKeys : Json → (depth : ℕ) → Prop
  | .obj ms, depth => maxDepth < depth ∨ PlainMembers ms (depth + 1)
  | .arr xs, depth => maxDepth < depth ∨ PlainItems xs arraySampleSize (depth + 1)
  | _, _ => True

def PlainMembers : Json.Members → (depth : ℕ) → Prop
  | [], _ => True
  | (key, child) :: ms, depth =>
    (maxDepth < depth ∨ isPlainMember key.toList = true) ∧ PlainKeys child depth ∧
      PlainMembers ms depth

def PlainItems : List Json → (left depth : ℕ) → Prop
  | [], _, _ => True
  | _, 0, _ => True
  | .obj ms :: xs, left + 1, depth => PlainMembers ms depth ∧ PlainItems xs left depth
  | x :: xs, left + 1, depth => PlainKeys x depth ∧ PlainItems xs left depth
end

def PlainEvent (event : Json) : Prop :=
  match event with
  | .obj ms => PlainMembers maxDepth ms 0
  | v => PlainKeys maxDepth v 0

end Plain

/-- The last object key among the selectors of a path. -/
def lastKey (sels : List Sel) : Option String :=
  (sels.filterMap fun
    | .key k => some k
    | _ => none).getLast?

/-- Detection sees the strings of a batch: a path reported as a string has a sample, which is
the string some event has at a place recorded under that path; and the last segment of a
reported path is the last object key of each place recorded under it, in lower case. -/
structure SeesEveryString (T : CaseTable) (maxDepth maxPaths maxEvents : ℕ) (events : List Json) :
    Prop where
  sampled : ∀ path,
    Dict.get? path (collectPathsFromEvents maxDepth maxPaths maxEvents events) = some .string →
      ∃ s, Dict.get? path (collectStringSamplesFromEvents maxDepth maxPaths maxEvents events) =
          some s ∧
        ∃ event ∈ events.take maxEvents, ∃ p, (p, .str s) ∈ visits maxDepth event ∧
          p.path = path ∧ getAt p.pos event = some (.str s)
  leaf : ∀ event ∈ events.take maxEvents, ∀ x ∈ visits maxDepth event,
    x.1.path ∈ (collectPathsFromEvents maxDepth maxPaths maxEvents events).map Prod.fst →
      ∀ key, lastKey x.1.sels = some key → leafSegment T x.1.path = T.lowerText key

end SensitiveDetection
