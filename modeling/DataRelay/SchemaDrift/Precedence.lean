import DataRelay.SchemaDrift.Orchestrator

/-! How far the policy of each kind of unknown field is honoured. The strongest policy
present governs the batch, at equal strength the one for sensitive fields; a field whose
kind is outranked by anything but a quarantine goes without its own treatment. -/
namespace SchemaDrift
open Protection Delivery

inductive DeliveryBehavior where
  | continue
  | block
  | quarantine
  | requireReview
  deriving DecidableEq, Repr

def deliveryBehaviorAliases : List (String × DeliveryBehavior) :=
  [("continue", .continue), ("continue_delivery", .continue), ("allow", .continue),
   ("block", .block), ("quarantine", .quarantine), ("require_review", .requireReview),
   ("review", .requireReview)]

def normalizeDeliveryBehavior (raw : Option String) : Option DeliveryBehavior :=
  raw.bind fun text => Dict.get? (PyText.lower (PyText.strip text)) deliveryBehaviorAliases

/-- The behaviour of the first enabled override of the route that names one. -/
def overrideBehavior (routeId : ℤ) (overrides : List RouteOverride) : Option DeliveryBehavior :=
  (overrides.filter fun o => decide (o.routeId = routeId) && o.enabled).findSome? fun o =>
    normalizeDeliveryBehavior o.deliveryBehavior

/-- `derive_drift_gates`: whether review and quarantine are required on the route. -/
def deriveDriftGates (result : Option SchemaDriftPolicyResult) (routeId : ℤ)
    (overrides : List RouteOverride) : Bool × Bool :=
  let quarantineRequired := result.any (·.shouldQuarantine)
  let reviewRequired := result.any fun r =>
    decide (r.batchAction = some .requireReview) || !r.reviewFields.isEmpty
  match overrideBehavior routeId overrides with
  | some .quarantine => (reviewRequired, true)
  | some .requireReview => (true, quarantineRequired)
  | _ => (reviewRequired, quarantineRequired)

/-- A gate is required by the drift of the batch or by an override of the route. -/
theorem deriveDriftGates_iff (drift : Option SchemaDriftPolicyResult) (routeId : ℤ)
    (overrides : List RouteOverride) :
    ((deriveDriftGates drift routeId overrides).1 = true ↔
        (∃ d, drift = some d ∧ (d.batchAction = some .requireReview ∨ d.reviewFields ≠ [])) ∨
          overrideBehavior routeId overrides = some .requireReview) ∧
      ((deriveDriftGates drift routeId overrides).2 = true ↔
        (∃ d, drift = some d ∧ d.shouldQuarantine = true) ∨
          overrideBehavior routeId overrides = some .quarantine) := by
  unfold deriveDriftGates
  cases overrideBehavior routeId overrides with
  | none => simp [Option.any_eq_true]
  | some behavior => cases behavior <;> simp [Option.any_eq_true]

/-- The action of the batch: the sensitive policy unless the normal one is stronger. -/
theorem resolveBatchAction_eq (normal sensitive : Policy) (hasNormal hasSensitive : Bool) :
    resolveBatchAction normal sensitive hasNormal hasSensitive =
      if hasSensitive && (!hasNormal || decide (actionStrength normal ≤ actionStrength sensitive))
      then some sensitive else if hasNormal then some normal else none := by
  cases hasNormal <;> cases hasSensitive <;> cases normal <;> cases sensitive <;> rfl

namespace DriftBatch

variable {b : DriftBatch} {item : UnknownFieldMatch}

def result (b : DriftBatch) : SchemaDriftPolicyResult := b.applySchemaDriftPolicyToBatch.1

/-- The treatment configured for the field's kind is in place. -/
def Treated (b : DriftBatch) (item : UnknownFieldMatch) : Prop :=
  match b.appliedPolicy item with
  | .passThrough => True
  | .dropField =>
    (∃ rule ∈ b.result.ephemeralProtectionRules, rule.fieldPath = item.enrichedPath ∧
      rule.protectionMode = .dropField) ∨
    item.enrichedPath ∈ b.existingPaths ∨ b.result.shouldQuarantine = true
  | .autoProtect =>
    (∃ rule ∈ b.result.ephemeralProtectionRules, rule.fieldPath = item.enrichedPath ∧
      rule.protectionMode ∈ [ProtectionMode.fullMask, .partialMask]) ∨
    item.enrichedPath ∈ b.existingPaths ∨ b.result.shouldQuarantine = true
  | .requireReview => ∀ routeId overrides,
    (deriveDriftGates (some b.result) routeId overrides).1 = true ∨
      (deriveDriftGates (some b.result) routeId overrides).2 = true
  | .quarantine => ∀ routeId overrides,
    (deriveDriftGates (some b.result) routeId overrides).2 = true

/-- `other` is of the other kind, and its policy takes the batch from `item`'s without
quarantining it. -/
def Cancels (b : DriftBatch) (other item : UnknownFieldMatch) : Prop :=
  other.isSensitive ≠ item.isSensitive ∧ b.appliedPolicy other ≠ b.appliedPolicy item ∧
    b.appliedPolicy other ≠ .quarantine ∧
      (actionStrength (b.appliedPolicy item) < actionStrength (b.appliedPolicy other) ∨
        actionStrength (b.appliedPolicy item) = actionStrength (b.appliedPolicy other) ∧
          other.isSensitive = true)

/-- The batch action is the field's own policy or that of a field of the other kind which
takes precedence. -/
theorem batchAction_of_mem (h : item ∈ b.unknownFields) :
    b.batchAction = some (b.appliedPolicy item) ∨
      ∃ other ∈ b.unknownFields, other.isSensitive ≠ item.isSensitive ∧
        b.batchAction = some (b.appliedPolicy other) ∧
          (actionStrength (b.appliedPolicy item) < actionStrength (b.appliedPolicy other) ∨
            actionStrength (b.appliedPolicy item) = actionStrength (b.appliedPolicy other) ∧
              other.isSensitive = true) := by
  unfold batchAction
  rw [resolveBatchAction_eq]
  cases hk : item.isSensitive with
  | true =>
    have hs : b.unknownFields.any (·.isSensitive) = true := List.any_eq_true.mpr ⟨item, h, hk⟩
    cases hn : b.unknownFields.any (!·.isSensitive) with
    | false => exact .inl (by simp [hs, appliedPolicy, hk])
    | true =>
      obtain ⟨other, ho, hok⟩ := List.any_eq_true.mp hn
      have hok : other.isSensitive = false := by simpa using hok
      by_cases hle : actionStrength b.config.unknownNormalFieldPolicy ≤
          actionStrength b.config.unknownSensitiveFieldPolicy
      · exact .inl (by simp [hs, hle, appliedPolicy, hk])
      · exact .inr ⟨other, ho, by simp [hok], by simp [hs, hle, appliedPolicy, hok],
          .inl (by simpa [appliedPolicy, hk, hok] using hle)⟩
  | false =>
    have hn : b.unknownFields.any (!·.isSensitive) = true :=
      List.any_eq_true.mpr ⟨item, h, by simp [hk]⟩
    cases hs : b.unknownFields.any (·.isSensitive) with
    | false => exact .inl (by simp [hn, appliedPolicy, hk])
    | true =>
      obtain ⟨other, ho, hok⟩ := List.any_eq_true.mp hs
      by_cases hle : actionStrength b.config.unknownNormalFieldPolicy ≤
          actionStrength b.config.unknownSensitiveFieldPolicy
      · refine .inr ⟨other, ho, by simp [hok], by simp [hle, appliedPolicy, hok], ?_⟩
        simpa [appliedPolicy, hk, hok] using Nat.lt_or_eq_of_le hle
      · exact .inl (by simp [hn, hle, appliedPolicy, hk])

/-- An unknown field comes from an open drift whose path resolved to it, and stands in the batch. -/
theorem drift_of_mem (h : item ∈ b.unknownFields) :
    ∃ drift ∈ b.openDrifts, drift.category = "field_added" ∧
      b.resolvePath (PyText.strip drift.fieldPath) = .ok item.enrichedPath ∧
      b.pathExistsInBatch item.enrichedPath = true := by
  obtain ⟨d, hd, hitem⟩ := List.mem_filterMap.mp h
  obtain ⟨drift, hdrift, rfl⟩ := List.mem_map.mp hd
  obtain ⟨hopen, hcategory⟩ := List.mem_filter.mp hdrift
  refine ⟨drift, hopen, of_decide_eq_true hcategory, ?_⟩
  have hfield : b.matchDrift drift = .field item := by
    revert hitem
    cases b.matchDrift drift <;> simp
  unfold matchDrift at hfield
  simp only at hfield
  split at hfield
  · cases hfield
  · split at hfield
    · cases hfield
    · next path hresolved =>
      split at hfield
      · cases hfield
      · next hexists =>
        obtain rfl := DriftOutcome.field.inj hfield
        exact ⟨hresolved, by simpa using hexists⟩

theorem pathExists_of_mem (h : item ∈ b.unknownFields) :
    b.pathExistsInBatch item.enrichedPath = true := by
  obtain ⟨-, -, -, -, hexists⟩ := drift_of_mem h
  exact hexists

/-- Where the result shows a field, the policy was evaluated. -/
theorem result_of_mem (h : item ∈ b.result.unknownFields) :
    b.result.unknownFields = b.unknownFields ∧ ∃ action base, b.batchAction = some action ∧
      base.batchAction = some action ∧ base.ephemeralProtectionRules = [] ∧
        b.result = (b.applyAction base action).1 := by
  unfold result applySchemaDriftPolicyToBatch at h ⊢
  split_ifs at h ⊢
  · simp at h
  · cases hact : b.batchAction with
    | none => simp [hact] at h
    | some action =>
      refine ⟨?_, action, _, rfl, rfl, rfl, rfl⟩
      cases action <;> rfl

theorem applyAction_batchAction (base : SchemaDriftPolicyResult) (action : Policy) :
    (b.applyAction base action).1.batchAction = base.batchAction := by
  cases action <;> rfl

theorem treated_of_quarantine (h : b.result.shouldQuarantine = true) : b.Treated item := by
  have hgate (routeId : ℤ) (overrides : List RouteOverride) :=
    (deriveDriftGates_iff (some b.result) routeId overrides).2.mpr (.inl ⟨_, rfl, h⟩)
  unfold Treated
  cases b.appliedPolicy item with
  | passThrough => trivial
  | dropField => exact .inr (.inr h)
  | autoProtect => exact .inr (.inr h)
  | requireReview => exact fun routeId overrides => .inr (hgate routeId overrides)
  | quarantine => exact hgate

/-- Only sensitive fields can be under auto-protect. -/
theorem appliedPolicy_autoProtect (h : b.appliedPolicy item = .autoProtect) :
    item.isSensitive = true ∧ b.config.unknownSensitiveFieldPolicy = .autoProtect := by
  cases hk : item.isSensitive with
  | true => exact ⟨rfl, by simpa [appliedPolicy, hk] using h⟩
  | false =>
    have hn := b.config.normal_mem
    simp only [appliedPolicy, hk, Bool.false_eq_true, ↓reduceIte] at h
    simp [h, unknownNormalPolicies] at hn

theorem autoProtectModeForClass_masks (sensitivityClass : Option String) :
    autoProtectModeForClass sensitivityClass ∈ [ProtectionMode.fullMask, .partialMask] := by
  unfold autoProtectModeForClass
  split_ifs <;> simp

theorem ephemeralRule_protectionMode (item : UnknownFieldMatch) (mode : ProtectionMode) :
    (b.ephemeralRule item mode).protectionMode = mode := rfl

/-- Under its own policy as the batch action a field gets its treatment. -/
theorem treated_of_action (h : item ∈ b.unknownFields) {base : SchemaDriftPolicyResult}
    (hbase : base.batchAction = some (b.appliedPolicy item))
    (hres : b.result = (b.applyAction base (b.appliedPolicy item)).1) : b.Treated item := by
  have hact : b.result.batchAction = some (b.appliedPolicy item) := by
    rw [hres, applyAction_batchAction, hbase]
  unfold Treated
  cases hp : b.appliedPolicy item with
  | passThrough => trivial
  | dropField =>
    by_cases hex : item.enrichedPath ∈ b.existingPaths
    · exact .inr (.inl hex)
    · refine .inl ⟨b.ephemeralRule item .dropField, ?_, rfl, rfl⟩
      rw [hres, hp]
      exact List.mem_map.mpr ⟨item, List.mem_filter.mpr ⟨h, by simp [hp, hex]⟩, rfl⟩
  | autoProtect =>
    by_cases hex : item.enrichedPath ∈ b.existingPaths
    · exact .inr (.inl hex)
    · obtain ⟨hk, hs⟩ := appliedPolicy_autoProtect hp
      refine .inl ⟨b.ephemeralRule item (autoProtectModeForClass item.sensitivityClass), ?_, rfl, ?_⟩
      swap
      · rw [ephemeralRule_protectionMode]
        exact autoProtectModeForClass_masks _
      rw [hres, hp]
      exact List.mem_map.mpr ⟨item, List.mem_filter.mpr ⟨h, by simp [hk, hs, hex]⟩, rfl⟩
  | requireReview =>
    exact fun r o => .inl ((deriveDriftGates_iff _ r o).1.mpr (.inl ⟨_, rfl, .inl (hp ▸ hact)⟩))
  | quarantine =>
    have hq : b.result.shouldQuarantine = true := by
      rw [hres, hp]
      rfl
    exact fun r o => (deriveDriftGates_iff _ r o).2.mpr (.inl ⟨_, rfl, hq⟩)

/-- A field that no field of the other kind cancels is treated as configured, and a
quarantine policy is always carried out. -/
theorem unknownFields_treated (b : DriftBatch) :
    (∀ item ∈ b.result.unknownFields,
        (∀ other ∈ b.result.unknownFields, ¬ b.Cancels other item) → b.Treated item) ∧
      ∀ item ∈ b.result.unknownFields, b.appliedPolicy item = .quarantine →
        ∀ routeId overrides, (deriveDriftGates (some b.result) routeId overrides).2 = true := by
  have hmain (item : UnknownFieldMatch) (hitem : item ∈ b.result.unknownFields)
      (hfree : ∀ other ∈ b.result.unknownFields, ¬ b.Cancels other item) : b.Treated item := by
    obtain ⟨hfields, action, base, hact, hbase, -, hres⟩ := result_of_mem hitem
    have hmem : item ∈ b.unknownFields := hfields ▸ hitem
    have hown (h : b.batchAction = some (b.appliedPolicy item)) : b.Treated item := by
      obtain rfl : action = b.appliedPolicy item := Option.some.inj (hact.symm.trans h)
      exact treated_of_action hmem hbase hres
    rcases batchAction_of_mem hmem with h | ⟨other, hother, hkind, hbatch, hrank⟩
    · exact hown h
    · by_cases hsame : b.appliedPolicy other = b.appliedPolicy item
      · exact hown (hsame ▸ hbatch)
      · by_cases hq : b.appliedPolicy other = .quarantine
        · obtain rfl : action = .quarantine :=
            Option.some.inj ((hact.symm.trans hbatch).trans (congrArg some hq))
          exact treated_of_quarantine (by rw [hres]; rfl)
        · exact absurd ⟨hkind, hsame, hq, hrank⟩ (hfree other (hfields ▸ hother))
  refine ⟨hmain, fun item hitem hq => ?_⟩
  have htreated : b.Treated item := by
    refine hmain item hitem fun other hother hcancel => ?_
    obtain ⟨-, hne, -, hrank⟩ := hcancel
    rw [hq] at hne hrank
    revert hne hrank
    cases b.appliedPolicy other <;> simp [actionStrength]
  simpa [Treated, hq] using htreated

/-- A batch with one unknown normal and one unknown sensitive field. -/
def mixedBatch (normal sensitive : String) : DriftBatch where
  streamConfigJson := .obj [("governance", .obj [("schema_drift_policy", .obj
    [("unknown_normal_field_policy", .str normal),
     ("unknown_sensitive_field_policy", .str sensitive)])])]
  enrichedEvents := [[("note", .str "n"), ("ssn", .str "900101")]]
  openDrifts := [⟨1, "field_added", "$.note"⟩, ⟨2, "field_added", "$.ssn"⟩]
  findings := [⟨"$.ssn", "pii"⟩]
  resolvePath := .ok
  pathExistsInBatch := fun path => decide (path ≠ "")

/-- Drop for normal fields loses to auto-protect for sensitive ones. -/
theorem mixedBatch_note_not_dropped :
    ¬ ∀ item ∈ (mixedBatch "drop_field" "auto_protect").result.unknownFields,
      (mixedBatch "drop_field" "auto_protect").Treated item := by
  intro h
  have hnote := h ⟨"$.note", "$.note", 1, false, none⟩ (by decide)
  have hpolicy : (mixedBatch "drop_field" "auto_protect").appliedPolicy
      ⟨"$.note", "$.note", 1, false, none⟩ = .dropField := by decide
  rw [Treated, hpolicy] at hnote
  revert hnote
  decide

end DriftBatch

end SchemaDrift
