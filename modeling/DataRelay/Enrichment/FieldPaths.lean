import DataRelay.Lib.PyText
import DataRelay.Protection.FieldPathParser
import DataRelay.Runner.StreamRun

/-! Dotted target fields of enrichment: reading, writing, and what is taken out of an event
before it is delivered. -/
namespace Enrichment
open Delivery Protection PyText

/-- `key.split(".")`. -/
def dotParts (key : String) : List String := (key.toList.splitOnP (· = '.')).map String.ofList

def getParts : List String → Json → Json
  | [], v => v
  | part :: parts, .obj ms =>
    match Dict.get? part ms with
    | some v => getParts parts v
    | none => .null
  | _ :: _, _ => .null

/-- `get_field_value`; what is missing reads as null. -/
def getFieldValue (event : Event) (path : String) : Json :=
  let key := strip path
  if key.isEmpty then .null
  else if '.' ∉ key.toList then (Dict.get? key event).getD .null
  else getParts (dotParts key) (.obj event)

def hasParts : List String → Json → Bool
  | [], _ => true
  | part :: parts, .obj ms =>
    match Dict.get? part ms with
    | some v => hasParts parts v
    | none => false
  | _ :: _, _ => false

/-- `has_field_value`. -/
def hasFieldValue (event : Event) (path : String) : Bool :=
  let key := strip path
  if key.isEmpty then false
  else if '.' ∉ key.toList then Dict.has key event
  else hasParts (dotParts key) (.obj event)

/-- `is_valid_field_path`. -/
def isValidFieldPath (path : String) : Bool :=
  let key := strip path
  !key.isEmpty && !(['_', '_'].isPrefixOf key.toList) &&
    (dotParts key).all fun part => isPlainMember part.toList

/-- The nested assignment; what is no object on the way is replaced by one. -/
def setParts : List String → Json → Event → Event
  | [], _, event => event
  | [part], value, event => Dict.set part value event
  | part :: parts, value, event =>
    let inner : Event :=
      match Dict.get? part event with
      | some (.obj ms) => ms
      | _ => []
    Dict.set part (.obj (setParts parts value inner)) event

/-- `set_field_value`: `none` where the path is refused, and the event is left alone. -/
def setFieldValue (event : Event) (path : String) (value : Json) : Option Event :=
  let key := strip path
  if key.isEmpty || !isValidFieldPath key then none
  else some (setParts (dotParts key) value event)

/-- A key that never leaves the pipeline. -/
def internalKey (key : String) : Bool := ['_', '_'].isPrefixOf key.toList

mutual
/-- `_strip_internal_nested`. -/
def stripInternalNested : Json → Json
  | .obj ms => .obj (stripMembers ms)
  | .arr xs => .arr (stripItems xs)
  | v => v

def stripMembers : Json.Members → Json.Members
  | [] => []
  | (k, v) :: ms =>
    if internalKey k then stripMembers ms else (k, stripInternalNested v) :: stripMembers ms

def stripItems : List Json → List Json
  | [] => []
  | x :: xs => stripInternalNested x :: stripItems xs
end

/-- `sanitize_delivery_event`: every reserved key opens with two underscores. -/
def sanitizeDeliveryEvent (event : Event) : Event := stripMembers event

end Enrichment
