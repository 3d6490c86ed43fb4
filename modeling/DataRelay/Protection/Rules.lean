import DataRelay.Lib.Json

/-! Protection rules, as stored for a stream or a route and as minted for one batch. -/
namespace Protection

inductive ProtectionMode where
  | fullMask
  | partialMask
  | hash
  | tokenization
  | dropField
  | other (name : String)
  deriving DecidableEq, Repr

def ProtectionMode.name : ProtectionMode → String
  | .fullMask => "full_mask"
  | .partialMask => "partial_mask"
  | .hash => "hash"
  | .tokenization => "tokenization"
  | .dropField => "drop_field"
  | .other name => name

/-- The modes an operator may store. -/
def protectionModes : List ProtectionMode :=
  [.fullMask, .partialMask, .hash, .tokenization, .dropField]

/-- What the engine reads of a stored rule or of an `EphemeralProtectionRule`. -/
structure Rule where
  streamId : ℤ
  fieldPath : String
  protectionMode : ProtectionMode
  sensitivityClass : Option String := none
  enabled : Bool := true
  id : Option ℤ := none
  deriving DecidableEq, Repr

/-- The rules `protect_batch` works through. -/
def rulesInForce (rules ephemeral : List Rule) : List Rule :=
  let enabled := rules.filter (·.enabled)
  enabled ++ ephemeral.filter fun rule =>
    rule.enabled && decide (rule.fieldPath ∉ enabled.map (·.fieldPath))

/-- One entry of a stream's `route_overrides`. -/
structure RouteOverride where
  routeId : ℤ := -1
  enabled : Bool := true
  fieldPath : String := ""
  protectionAction : Option String := none
  sensitivityClass : Option String := none
  deliveryBehavior : Option String := none
  deriving DecidableEq, Repr

end Protection
