import DataRelay.Delivery.SendRoute
import DataRelay.Protection.FieldPathParser
import DataRelay.Protection.Modes

/-! The protection engine on one event: the descents that rewrite or drop what a path
designates, the guard against ambiguous legacy paths, and the batch loop. A descent that
raises keeps what it had already rewritten. -/
namespace Protection
open JsonPath Delivery

/-- One loop over a list: items are rewritten in turn until one raises. -/
def applyItems (f : Json → Json × Except String ℕ) : List Json → List Json × Except String ℕ
  | [] => ([], .ok 0)
  | x :: xs =>
    match f x with
    | (y, .error e) => (y :: xs, .error e)
    | (y, .ok n) =>
      let rest := applyItems f xs
      (y :: rest.1, rest.2.map (n + ·))

/-- Rewrite one value in its place; `put` puts the result back. -/
def applyLeaf (mode : Json → Except String Json) (node value : Json) (put : Json → Json) :
    Json × Except String ℕ :=
  match mode value with
  | .ok w => (put w, .ok 1)
  | .error e => (node, .error e)

/-- `_apply_at_segments`: the node afterwards, and the count or what was raised. -/
def applyAtSegments (mode : Json → Except String Json) :
    List Sel → Json → Json × Except String ℕ
  | .index i :: rest, .arr xs =>
    match (Json.resolveIndex xs.length i).bind fun n => xs[n]?.map (n, ·) with
    | none => (.arr xs, .ok 0)
    | some (n, item) =>
      if rest.isEmpty then applyLeaf mode (.arr xs) item fun w => .arr (xs.set n w)
      else
        let out := applyAtSegments mode rest item
        (.arr (xs.set n out.1), out.2)
  | .wild :: rest, .arr xs =>
    let out := applyItems (applyAtSegments mode rest) xs
    (.arr out.1, out.2)
  | .key k :: [], .obj ms =>
    match Dict.get? k ms with
    | some v => applyLeaf mode (.obj ms) v fun w => .obj (Dict.set k w ms)
    | none => (.obj ms, .ok 0)
  | .key k :: .wild :: rest, .obj ms =>
    match Dict.get? k ms with
    | some (.arr items) =>
      let out := applyItems (applyAtSegments mode rest) items
      (.obj (Dict.set k (.arr out.1) ms), out.2)
    | _ => (.obj ms, .ok 0)
  | .key k :: rest, .obj ms =>
    match Dict.get? k ms with
    | some (.obj c) =>
      let out := applyAtSegments mode rest (.obj c)
      (.obj (Dict.set k out.1 ms), out.2)
    | some (.arr c) =>
      let out := applyAtSegments mode rest (.arr c)
      (.obj (Dict.set k out.1 ms), out.2)
    | _ => (.obj ms, .ok 0)
  | _, v => (v, .ok 0)

/-- The loop of `_drop_at_segments` over a list. -/
def dropItems (f : Json → Json × ℕ) (xs : List Json) : List Json × ℕ :=
  (xs.map fun x => (f x).1, (xs.map fun x => (f x).2).sum)

/-- `_drop_at_segments`: the node afterwards and the count. -/
def dropAtSegments : List Sel → Json → Json × ℕ
  | .index i :: rest, .arr xs =>
    match (Json.resolveIndex xs.length i).bind fun n => xs[n]?.map (n, ·) with
    | none => (.arr xs, 0)
    | some (n, item) =>
      if rest.isEmpty then (.arr (xs.eraseIdx n), 1)
      else
        let out := dropAtSegments rest item
        (.arr (xs.set n out.1), out.2)
  | .wild :: rest, .arr xs =>
    let out := dropItems (dropAtSegments rest) xs
    (.arr out.1, out.2)
  | .key k :: [], .obj ms =>
    if Dict.has k ms then (.obj (Dict.erase k ms), 1) else (.obj ms, 0)
  | .key k :: .wild :: rest, .obj ms =>
    match Dict.get? k ms with
    | some (.arr items) =>
      let out := dropItems (dropAtSegments rest) items
      (.obj (Dict.set k (.arr out.1) ms), out.2)
    | _ => (.obj ms, 0)
  | .key k :: rest, .obj ms =>
    match Dict.get? k ms with
    | some c =>
      let out := dropAtSegments rest c
      (.obj (Dict.set k out.1 ms), out.2)
    | none => (.obj ms, 0)
  | _, v => (v, 0)

/-- The names of the unquoted members a path continues with. -/
def unquotedRun : List (Sel × Bool) → List String
  | (.key k, false) :: rest => k :: unquotedRun rest
  | _ => []

/-- A literal member spells two or more of the coming unquoted members with dots. -/
def dottedMember (run : List String) (ms : Json.Members) : Bool :=
  run.inits.any fun parts =>
    decide (2 ≤ parts.length) && Dict.has (String.intercalate "." parts) ms

/-- `could_alias` of `_legacy_path_has_literal_dotted_member`. -/
def couldAlias : List (Sel × Bool) → Json → Bool
  | (.wild, _) :: rest, .arr xs => xs.any (couldAlias rest)
  | (.index i, _) :: rest, .arr xs =>
    ((Json.resolveIndex xs.length i).bind (xs[·]?)).any (couldAlias rest)
  | (.key k, quoted) :: rest, .obj ms =>
    dottedMember (unquotedRun ((.key k, quoted) :: rest)) ms ||
      (Dict.get? k ms).any (couldAlias rest)
  | _, _ => false

/-- `_legacy_path_has_literal_dotted_member`. -/
def legacyPathHasLiteralDottedMember (event : Event) (fieldPath : String) (segments : List Sel) :
    Except String Bool := do
  let flags ← quotedSelectorFlags fieldPath
  if flags.length ≠ segments.length then .error "Protection selector boundary mismatch"
  else return couldAlias (segments.zip flags) (.obj event)

structure ProtectionFieldWarning where
  fieldPath : String
  ruleId : Option ℤ
  errorMessage : String
  deriving DecidableEq, Repr

/-- What `apply_rule_to_event` leaves of the event, and what it returns. -/
structure RuleOutcome where
  event : Json
  count : ℕ
  warning : Option ProtectionFieldWarning
  deriving DecidableEq

def ruleWarning (rule : Rule) (message : String) : ProtectionFieldWarning where
  fieldPath := rule.fieldPath
  ruleId := rule.id.filter (· ≠ 0)
  errorMessage := message

def ambiguousMessage : String :=
  "ambiguous legacy field path: literal dotted member could bypass protection; " ++
    "use explicit quoted selector"

/-- The rewriting part of `apply_rule_to_event`. -/
def applySegments (ctx : ModeContext) (rule : Rule) (segments : List Sel) (event : Json) :
    RuleOutcome :=
  if rule.protectionMode = .dropField then
    let out := dropAtSegments segments event
    ⟨out.1, out.2, none⟩
  else
    match applyAtSegments (applyProtectionMode ctx rule.fieldPath rule.protectionMode) segments
        event with
    | (node, .ok count) => ⟨node, count, none⟩
    | (node, .error e) => ⟨node, 0, some (ruleWarning rule e)⟩

/-- `apply_rule_to_event`; the outer error is an exception of the ambiguity guard. -/
def applyRuleToEvent (ctx : ModeContext) (event : Event) (rule : Rule) :
    Except String RuleOutcome :=
  match parseProtectionPath rule.fieldPath with
  | .error e => .ok ⟨.obj event, 0, some (ruleWarning rule e)⟩
  | .ok [] => .ok ⟨.obj event, 0, some (ruleWarning rule "empty field_path segments")⟩
  | .ok segments => do
    if ← legacyPathHasLiteralDottedMember event rule.fieldPath segments then
      return ⟨.obj event, 0, some (ruleWarning rule ambiguousMessage)⟩
    else return applySegments ctx rule segments (.obj event)

end Protection
