import DataRelay.RoutePolicy.Stage
import DataRelay.Runner.DynamicRoutes

/-! What the policy of a route decides and how far it is enforced. The decision is the
strongest of all that ask for one, and nothing of a withheld route reaches its send. -/
namespace Runner
open Delivery
open RouteProtection (ResultCaches routeStages)

namespace RunStream

variable {s : RunStream} {opts : StreamRunOptions} {batch : List Event}

/-- The routes whose policy stage the loop gets to, with the protected events it is handed. -/
def policyInputs (s : RunStream) (batch : List Event) :
    List RouteRun → ResultCaches → List (RouteRun × List Event)
  | [], _ => []
  | r :: rs, caches =>
    if !r.row.enabled then policyInputs s batch rs caches
    else
      match routeStages s.engines (s.sharedBatch batch) r.context caches with
      | (.error _, _) => []
      | (.ok events, caches) =>
        (r, events.protectedEvents) ::
          match r.policy events.protectedEvents with
          | .error _ => []
          | .ok _ => policyInputs s batch rs caches

/-- What the stages of a route give is what its policy stage answers. -/
theorem stageOutcomes_of_policyInputs (rs : List RouteRun) (caches : ResultCaches) {r : RouteRun}
    {events : List Event} (h : (r, events) ∈ s.policyInputs batch rs caches) :
    ∃ checkpointEvents, (r, (r.policy events).map fun answer =>
      (⟨checkpointEvents, answer.events, answer.decision, answer.quarantineRow⟩ : Prepared)) ∈
        s.stageOutcomes batch rs caches := by
  induction rs generalizing caches with
  | nil => simp [policyInputs] at h
  | cons q rs ih =>
    unfold policyInputs at h
    unfold stageOutcomes
    split_ifs at h ⊢ with hen
    · exact ih caches h
    · unfold stages
      cases hout : routeStages s.engines (s.sharedBatch batch) q.context caches with
      | mk out caches' =>
        rw [hout] at h
        cases out with
        | error e => simp at h
        | ok protection =>
          simp only [Except.mapError, Except.bind] at h ⊢
          cases hpolicy : q.policy protection.protectedEvents with
          | error e =>
            simp only [hpolicy, List.mem_singleton] at h
            cases h
            exact ⟨protection.checkpointEvents, by simp [hpolicy, Except.map]⟩
          | ok answer =>
            simp only [hpolicy, List.mem_cons] at h
            simp only [Except.map]
            rcases h with h | h
            · cases h
              exact ⟨protection.checkpointEvents, by simp [hpolicy]⟩
            · obtain ⟨checkpointEvents, hmem⟩ := ih caches' h
              exact ⟨checkpointEvents, List.mem_cons_of_mem _ hmem⟩

end RunStream

namespace RunInput

variable {r : RunInput} {rows : List Dedup.DeliveryLogRow}

/-- The route loop is entered. -/
structure EntersLoop (r : RunInput) (rows : List Dedup.DeliveryLogRow) : Prop where
  lock : r.lockAcquired = true
  entry : r.entryError = none
  source : r.sourceAllows = true
  batch_ne : r.batch rows ≠ []
  delivers : r.runOpts.dryRun = false
  shared : r.sharedPhaseError = none

/-- What the policy stages inserted outlasts the run: there is no request session, its transaction
is committed in the end, or its caller commits it after an error. -/
def KeepsRows (r : RunInput) (rows : List Dedup.DeliveryLogRow) : Prop :=
  r.session = none ∨ (run r rows).flushed.isSome = true ∨
    ((∃ e, (r.body rows).2 = .error e) ∧ r.session.any (·.commitsAfterError) = true)

theorem deliverBatch_pipeline (hshared : r.sharedPhaseError = none) (batch : List Event)
    (st : RunState) : (r.deliverBatch batch st).1.pipeline =
      some (r.stream.processRoutes r.runOpts batch r.stream.routes {} {}).1 := by
  have hfinish (pipeline : RoutePipelineResult) (st : RunState) :
      (r.finishDelivery batch pipeline st).1.pipeline = st.pipeline := by
    unfold finishDelivery
    simp only
    split
    · rfl
    · split <;> rfl
  unfold deliverBatch
  simp only [hshared]
  split
  · rfl
  · split
    · rfl
    · rw [hfinish]
      rfl

theorem EntersLoop.body_pipeline (h : r.EntersLoop rows) : (r.body rows).1.pipeline =
    some (r.stream.processRoutes r.runOpts (r.batch rows) r.stream.routes {} {}).1 := by
  cases hf : r.fetched with
  | error e => exact absurd (by simp [batch, hf]) h.batch_ne
  | ok fetched =>
    have hbatch : r.batch rows = (r.collect rows fetched).1 := by simp [batch, hf]
    unfold body
    simp only [h.entry, h.source, hf, h.delivers, ← hbatch, List.isEmpty_iff, h.batch_ne,
      Bool.not_true, Bool.false_eq_true, ↓reduceIte]
    exact deliverBatch_pipeline h.shared _ _

/-- The row a route's policy stage inserted is there after the run exactly when the run keeps its
rows. -/
theorem EntersLoop.mem_quarantineRows_iff (h : r.EntersLoop rows) {x : RouteRun} {p : Prepared}
    (hp : r.stream.Prepares (r.batch rows) x p) {row : StreamQuarantineEvent}
    (hrow : p.quarantineRow = some row) :
    row ∈ (run r rows).quarantineRows ↔ r.KeepsRows rows := by
  have hmem : row ∈ (r.body rows).1.quarantineRows := by
    rw [RunState.quarantineRows, h.body_pipeline]
    simp only [Option.map_some, Option.getD_some, RoutePipelineResult.quarantineRows,
      List.mem_filterMap]
    exact ⟨_, (RunStream.mem_processRoutes ..).mpr (.inr ⟨x, p, hp, rfl⟩), hrow⟩
  unfold KeepsRows run
  simp only [h.lock, Bool.not_true, Bool.false_eq_true, ↓reduceIte]
  cases hbody : r.body rows with
  | mk st res =>
    rw [hbody] at hmem
    cases res with
    | error e => cases hsession : r.session <;> simp [keptRows, hmem, hsession]
    | ok o =>
      cases hsession : r.session <;> cases r.flushError <;> simp [keptRows, hmem, hsession]

end RunInput

end Runner

namespace RoutePolicy
open Delivery Protection SchemaDrift Runner
open RouteProtection (plainEngines)

def actionDecision : PolicyAction → PolicyDecision
  | .auditOnly => .audit
  | .quarantine => .quarantine
  | .other _ => .allow

def behaviorDecision : DeliveryBehavior → PolicyDecision
  | .continue => .allow
  | .block => .block
  | .quarantine => .quarantine
  | .requireReview => .requireReview

/-- The behaviour an override names for the route. -/
def Names (routeId : ℤ) (o : RouteOverride) (b : DeliveryBehavior) : Prop :=
  o.routeId = routeId ∧ o.enabled = true ∧ normalizeDeliveryBehavior o.deliveryBehavior = some b

namespace PolicyCall

/-- The rule matches the batch. -/
def Matches (c : PolicyCall) (events : List Event) (rule : PolicyRule) : Prop :=
  rule ∈ c.config.rules ∧ events ≠ [] ∧
    conditionMatches rule.conditionJson (findingClassesOf c.findings)
      (classificationLevelsFromEvents events) = true

/-- The decisions asked for: by the default, by matching rules, by the route's overrides, by
the stream's defaults when no override names a behaviour, and by the drift gates. -/
inductive Applies (c : PolicyCall) (events : List Event) : PolicyDecision → Prop where
  | base : Applies c events .allow
  | rule {rule : PolicyRule} (h : c.Matches events rule) :
    Applies c events (actionDecision rule.actionType)
  | override {o : RouteOverride} {b : DeliveryBehavior} (ho : o ∈ c.overrides)
    (hb : Names c.routeId o b) : Applies c events (behaviorDecision b)
  | default {g : GovernanceRule} {b : DeliveryBehavior}
    (hnone : ∀ o ∈ c.overrides, ∀ b, ¬ Names c.routeId o b) (hg : g ∈ c.governance)
    (hen : g.enabled = true) (hb : normalizeDeliveryBehavior g.defaultDeliveryBehavior = some b) :
    Applies c events (behaviorDecision b)
  | driftReview {d : SchemaDriftPolicyResult} (hd : c.drift = some d)
    (h : d.batchAction = some .requireReview ∨ d.reviewFields ≠ []) :
    Applies c events .requireReview
  | driftQuarantine {d : SchemaDriftPolicyResult} (hd : c.drift = some d)
    (h : d.shouldQuarantine = true) : Applies c events .quarantine

end PolicyCall

theorem mem_overrideBehaviors {routeId : ℤ} {overrides : List RouteOverride}
    {b : DeliveryBehavior} :
    b ∈ overrideBehaviors routeId overrides ↔ ∃ o ∈ overrides, Names routeId o b := by
  simp [overrideBehaviors, Names, and_assoc]

theorem mem_defaultBehaviors {rules : List GovernanceRule} {b : DeliveryBehavior} :
    b ∈ defaultBehaviors rules ↔
      ∃ g ∈ rules, g.enabled = true ∧ normalizeDeliveryBehavior g.defaultDeliveryBehavior = some b := by
  simp [defaultBehaviors, and_assoc]

theorem decisionPrecedence_injective : Function.Injective decisionPrecedence := by
  intro a b h
  cases a <;> cases b <;> first | rfl | cases h

/-- A stronger behaviour asks for a stronger decision. -/
theorem behaviorDecision_mono {a b : DeliveryBehavior}
    (h : deliveryBehaviorPrecedence a ≤ deliveryBehaviorPrecedence b) :
    decisionPrecedence (behaviorDecision a) ≤ decisionPrecedence (behaviorDecision b) := by
  revert h
  cases a <;> cases b <;> decide

/-- The merged candidates have a first strongest, and it is returned. -/
theorem pickStrongest_cons_spec (d : PolicyDecision) (ds : List PolicyDecision) :
    pickStrongest (d :: ds) ∈ d :: ds ∧
      ∀ x ∈ d :: ds, decisionPrecedence x ≤ decisionPrecedence (pickStrongest (d :: ds)) := by
  unfold pickStrongest
  cases h : (d :: ds).argmax decisionPrecedence with
  | none => simp at h
  | some m => exact ⟨List.argmax_mem h, fun x hx => List.le_of_mem_argmax hx h⟩

namespace PolicyCall

variable {c : PolicyCall} {events : List Event}

/-- The enabled rules of the route, else the enabled ones of the stream. -/
theorem mem_config_rules {rule : PolicyRule} :
    rule ∈ c.config.rules ↔ rule.enabled = true ∧ (rule ∈ c.routeRules ∨
      (∀ own ∈ c.routeRules, own.enabled = false) ∧ rule ∈ c.streamRules) := by
  have hconfig : c.config.rules = (persistedRules c.routeRules c.streamRules).1 := rfl
  rw [hconfig]
  unfold persistedRules
  by_cases hown : c.routeRules.filter (·.enabled) = []
  · have hoff : ∀ own ∈ c.routeRules, own.enabled = false := by simpa using hown
    have hnot : rule.enabled = true → rule ∉ c.routeRules := fun hen hmem => by
      simp [hoff rule hmem] at hen
    by_cases hshared : c.streamRules.filter (·.enabled) = []
    · have hstream : ∀ own ∈ c.streamRules, own.enabled = false := by simpa using hshared
      simp only [hown, hshared, List.isEmpty_nil, Bool.not_true, Bool.false_eq_true, ↓reduceIte,
        List.not_mem_nil, false_iff]
      rintro ⟨hen, hmem | ⟨-, hmem⟩⟩
      · exact hnot hen hmem
      · simp [hstream rule hmem] at hen
    · simp only [hown, List.isEmpty_nil, Bool.not_true, Bool.false_eq_true, ↓reduceIte,
        List.isEmpty_eq_false_iff.mpr hshared, Bool.not_false, List.mem_filter]
      exact ⟨fun h => ⟨h.2, .inr ⟨hoff, h.1⟩⟩,
        fun h => ⟨(h.2.resolve_left (hnot h.1)).2, h.1⟩⟩
  · have hon : ¬ ∀ own ∈ c.routeRules, own.enabled = false := by simpa using hown
    simp [List.isEmpty_eq_false_iff.mpr hown, hon, and_comm]

/-- The engine reports a matching action exactly when a rule with it matches. -/
theorem exists_matched_iff (action : PolicyAction) :
    (∃ item ∈ (c.policyBatchResult events).evaluations,
        item.isMatched = true ∧ item.actionType = action) ↔
      ∃ rule, c.Matches events rule ∧ rule.actionType = action := by
  by_cases hev : events = []
  · simp [policyBatchResult, Matches, hev]
  by_cases hrules : c.config.rules = []
  · have hnone : (c.policyBatchResult events).evaluations = [] := by
      unfold policyBatchResult
      split_ifs <;> simp [evaluateInjectedPolicyBatch, hrules]
    simp [hnone, Matches, hrules]
  have hall : c.config.rules.filter (·.enabled) = c.config.rules :=
    List.filter_eq_self.mpr fun rule h => (mem_config_rules.mp h).1
  simp [policyBatchResult, evaluateInjectedPolicyBatch, hev, hrules, hall, Matches, and_assoc]

theorem shouldQuarantineBatch_iff :
    shouldQuarantineBatch (c.policyBatchResult events) = true ↔
      ∃ rule, c.Matches events rule ∧ rule.actionType = .quarantine := by
  rw [← exists_matched_iff]
  simp [shouldQuarantineBatch, matchedQuarantineEvaluations]

/-- The behaviour in force is the strongest the route's overrides name, else the strongest
default of the stream. -/
theorem effectiveBehavior_spec (c : PolicyCall) (events : List Event) :
    (∀ b, c.config.overrideDeliveryBehavior = some b → c.Applies events (behaviorDecision b)) ∧
      ∀ b, ((∃ o ∈ c.overrides, Names c.routeId o b) ∨
          (∀ o ∈ c.overrides, ∀ b, ¬ Names c.routeId o b) ∧ ∃ g ∈ c.governance,
            g.enabled = true ∧ normalizeDeliveryBehavior g.defaultDeliveryBehavior = some b) →
        ∃ m, c.config.overrideDeliveryBehavior = some m ∧
          deliveryBehaviorPrecedence b ≤ deliveryBehaviorPrecedence m := by
  have hconfig : c.config.overrideDeliveryBehavior =
      resolveEffectiveDeliveryBehavior c.routeId c.overrides c.governance := rfl
  rw [hconfig]
  unfold resolveEffectiveDeliveryBehavior extractRouteOverrideDeliveryBehavior
    extractStreamDefaultDeliveryBehavior pickMostRestrictive
  cases hown : (overrideBehaviors c.routeId c.overrides).argmax deliveryBehaviorPrecedence with
  | some m =>
    refine ⟨fun b hb => ?_, fun b hb => ⟨m, rfl, ?_⟩⟩
    · obtain ⟨o, ho, hn⟩ := mem_overrideBehaviors.mp (List.argmax_mem hown)
      obtain rfl := Option.some.inj hb
      exact .override ho hn
    · rcases hb with hb | ⟨hnone, -⟩
      · exact List.le_of_mem_argmax (mem_overrideBehaviors.mpr hb) hown
      · obtain ⟨o, ho, hn⟩ := mem_overrideBehaviors.mp (List.argmax_mem hown)
        exact absurd hn (hnone o ho m)
  | none =>
    have hnone : ∀ o ∈ c.overrides, ∀ b, ¬ Names c.routeId o b := by
      intro o ho b hn
      have hmem := mem_overrideBehaviors.mpr ⟨o, ho, hn⟩
      rw [List.argmax_eq_none.mp hown] at hmem
      simp at hmem
    refine ⟨fun b hb => ?_, fun b hb => ?_⟩
    · obtain ⟨g, hg, hen, hn⟩ := mem_defaultBehaviors.mp (List.argmax_mem hb)
      exact .default hnone hg hen hn
    · rcases hb with ⟨o, ho, hn⟩ | ⟨-, hb⟩
      · exact absurd hn (hnone o ho b)
      · have hmem := mem_defaultBehaviors.mpr hb
        cases hm : (defaultBehaviors c.governance).argmax deliveryBehaviorPrecedence with
        | none =>
          rw [List.argmax_eq_none.mp hm] at hmem
          simp at hmem
        | some m => exact ⟨m, rfl, List.le_of_mem_argmax hmem hm⟩

/-- A gate of the route that an override opened is one the override also names. -/
theorem names_of_overrideBehavior {b : DeliveryBehavior}
    (h : overrideBehavior c.routeId c.overrides = some b) :
    ∃ o ∈ c.overrides, Names c.routeId o b := by
  obtain ⟨o, ho, hn⟩ := List.exists_of_findSome?_eq_some h
  obtain ⟨ho, hroute⟩ := List.mem_filter.mp ho
  simp only [Bool.and_eq_true, decide_eq_true_eq] at hroute
  exact ⟨o, ho, hroute.1, hroute.2, hn⟩

/-- The gates of the route are required by the drift of the batch or by its overrides. -/
theorem driftGates_apply (c : PolicyCall) (events : List Event) :
    (c.config.resolution.driftReviewRequired = true → c.Applies events .requireReview) ∧
      (c.config.resolution.driftQuarantineRequired = true → c.Applies events .quarantine) := by
  obtain ⟨hreview, hquarantine⟩ := deriveDriftGates_iff c.drift c.routeId c.overrides
  constructor
  · intro h
    rcases hreview.mp h with ⟨d, hd, hr⟩ | hb
    · exact .driftReview hd hr
    · obtain ⟨o, ho, hn⟩ := names_of_overrideBehavior hb
      exact .override ho hn
  · intro h
    rcases hquarantine.mp h with ⟨d, hd, hq⟩ | hb
    · exact .driftQuarantine hd hq
    · obtain ⟨o, ho, hn⟩ := names_of_overrideBehavior hb
      exact .override ho hn

theorem mem_candidates_iff (result : PolicyBatchResult) (config : RoutePolicyConfig)
    (d : PolicyDecision) : d ∈ (mergeCandidates result config).map Prod.fst ↔
      (d = .quarantine ∧ shouldQuarantineBatch result = true) ∨
      (d = .audit ∧ ∃ item ∈ result.evaluations,
        item.isMatched = true ∧ item.actionType = .auditOnly) ∨
      (∃ b, config.overrideDeliveryBehavior = some b ∧ b ≠ .continue ∧ d = behaviorDecision b) ∨
      (d = .quarantine ∧ config.resolution.driftQuarantineRequired = true) ∨
      (d = .requireReview ∧ config.resolution.driftReviewRequired = true) := by
  simp only [mergeCandidates, List.map_append, List.mem_append, or_assoc]
  refine or_congr ?_ (or_congr ?_ (or_congr ?_ (or_congr ?_ ?_)))
  · cases shouldQuarantineBatch result <;> simp
  · by_cases h : ∃ item ∈ result.evaluations, item.isMatched = true ∧ item.actionType = .auditOnly
    · rw [if_neg (by simpa using h)]
      simp [h]
    · rw [if_pos (by simpa using h)]
      simp [h]
  · cases config.overrideDeliveryBehavior with
    | none => simp
    | some b => cases b <;> simp [behaviorDecision]
  · cases config.resolution.driftQuarantineRequired <;> simp
  · cases config.resolution.driftReviewRequired <;> simp

/-- The decision is asked for, and nothing stronger is. -/
theorem decision_greatest (c : PolicyCall) (events : List Event) :
    c.Applies events (c.decision events).1 ∧ ∀ d, c.Applies events d →
      decisionPrecedence d ≤ decisionPrecedence (c.decision events).1 := by
  obtain ⟨hmem, hmax⟩ := pickStrongest_cons_spec .allow
    ((mergeCandidates (c.policyBatchResult events) c.config).map Prod.fst)
  have hdecision : (c.decision events).1 = pickStrongest (.allow ::
    (mergeCandidates (c.policyBatchResult events) c.config).map Prod.fst) := rfl
  rw [← hdecision] at hmem hmax
  obtain ⟨hbehavior, hstrongest⟩ := c.effectiveBehavior_spec events
  obtain ⟨hreview, hquarantine⟩ := c.driftGates_apply events
  have hcandidate {d : PolicyDecision} (h : d ∈ (mergeCandidates (c.policyBatchResult events)
      c.config).map Prod.fst) := hmax d (List.mem_cons_of_mem _ h)
  have hbound (b : DeliveryBehavior) (hb : c.config.overrideDeliveryBehavior = some b) :
      decisionPrecedence (behaviorDecision b) ≤ decisionPrecedence (c.decision events).1 := by
    by_cases hc : b = .continue
    · subst hc
      exact hmax .allow List.mem_cons_self
    · exact hcandidate ((mem_candidates_iff ..).mpr (.inr (.inr (.inl ⟨b, hb, hc, rfl⟩))))
  constructor
  · rcases List.mem_cons.mp hmem with hd | hd
    · exact hd ▸ .base
    · rcases (mem_candidates_iff ..).mp hd with ⟨hd, hq⟩ | ⟨hd, ha⟩ | ⟨b, hb, -, hd⟩ | ⟨hd, hq⟩ | ⟨hd, hr⟩
      · obtain ⟨rule, hrule, haction⟩ := shouldQuarantineBatch_iff.mp hq
        have happ : c.Applies events (actionDecision rule.actionType) := .rule hrule
        rw [haction] at happ
        exact hd ▸ happ
      · obtain ⟨rule, hrule, haction⟩ := (exists_matched_iff _).mp ha
        have happ : c.Applies events (actionDecision rule.actionType) := .rule hrule
        rw [haction] at happ
        exact hd ▸ happ
      · exact hd ▸ hbehavior b hb
      · exact hd ▸ hquarantine hq
      · exact hd ▸ hreview hr
  · intro d hd
    cases hd with
    | base => exact hmax .allow List.mem_cons_self
    | @rule rule h =>
      cases haction : rule.actionType with
      | auditOnly =>
        exact hcandidate ((mem_candidates_iff ..).mpr
          (.inr (.inl ⟨rfl, (exists_matched_iff _).mpr ⟨rule, h, haction⟩⟩)))
      | quarantine =>
        exact hcandidate ((mem_candidates_iff ..).mpr
          (.inl ⟨rfl, shouldQuarantineBatch_iff.mpr ⟨rule, h, haction⟩⟩))
      | other name => exact hmax .allow List.mem_cons_self
    | override ho hb =>
      obtain ⟨m, hm, hle⟩ := hstrongest _ (.inl ⟨_, ho, hb⟩)
      exact (behaviorDecision_mono hle).trans (hbound m hm)
    | default hnone hg hen hb =>
      obtain ⟨m, hm, hle⟩ := hstrongest _ (.inr ⟨hnone, _, hg, hen, hb⟩)
      exact (behaviorDecision_mono hle).trans (hbound m hm)
    | @driftReview r hr h =>
      have hgate : c.config.resolution.driftReviewRequired = true :=
        (deriveDriftGates_iff c.drift c.routeId c.overrides).1.mpr (.inl ⟨r, hr, h⟩)
      exact hcandidate ((mem_candidates_iff ..).mpr (.inr (.inr (.inr (.inr ⟨rfl, hgate⟩)))))
    | @driftQuarantine r hr h =>
      have hgate : c.config.resolution.driftQuarantineRequired = true :=
        (deriveDriftGates_iff c.drift c.routeId c.overrides).2.mpr (.inl ⟨r, hr, h⟩)
      exact hcandidate ((mem_candidates_iff ..).mpr (.inr (.inr (.inr (.inl ⟨rfl, hgate⟩)))))

/-- The same rules, overrides and defaults in another order. -/
structure Reordered (c c' : PolicyCall) : Prop where
  routeRules : c.routeRules.Perm c'.routeRules
  streamRules : c.streamRules.Perm c'.streamRules
  overrides : c.overrides.Perm c'.overrides
  governance : c.governance.Perm c'.governance
  routeId : c.routeId = c'.routeId
  drift : c.drift = c'.drift
  findings : c.findings = c'.findings

theorem Reordered.symm {c' : PolicyCall} (h : c.Reordered c') : c'.Reordered c :=
  ⟨h.routeRules.symm, h.streamRules.symm, h.overrides.symm, h.governance.symm, h.routeId.symm,
    h.drift.symm, h.findings.symm⟩

theorem Reordered.matches {c' : PolicyCall} (h : c.Reordered c') {rule : PolicyRule}
    (hm : c.Matches events rule) : c'.Matches events rule := by
  obtain ⟨hmem, hev, hcond⟩ := hm
  rw [mem_config_rules] at hmem
  refine ⟨mem_config_rules.mpr ?_, hev, h.findings ▸ hcond⟩
  simpa only [h.routeRules.mem_iff, h.streamRules.mem_iff] using hmem

theorem Reordered.applies {c' : PolicyCall} (h : c.Reordered c') {d : PolicyDecision}
    (hd : c.Applies events d) : c'.Applies events d := by
  cases hd with
  | base => exact .base
  | rule hm => exact .rule (h.matches hm)
  | override ho hb => exact .override (h.overrides.mem_iff.mp ho) (h.routeId ▸ hb)
  | default hnone hg hen hb =>
    refine .default (fun o ho b => ?_) (h.governance.mem_iff.mp hg) hen hb
    rw [← h.routeId]
    exact hnone o (h.overrides.mem_iff.mpr ho) b
  | driftReview hr hb => exact .driftReview (h.drift ▸ hr) hb
  | driftQuarantine hr hb => exact .driftQuarantine (h.drift ▸ hr) hb

theorem Reordered.decision_eq {c' : PolicyCall} (h : c.Reordered c') (events : List Event) :
    (c.decision events).1 = (c'.decision events).1 := by
  obtain ⟨happ, hmax⟩ := c.decision_greatest events
  obtain ⟨happ', hmax'⟩ := c'.decision_greatest events
  exact decisionPrecedence_injective
    (le_antisymm (hmax' _ (h.applies happ)) (hmax _ (h.symm.applies happ')))

/-- What can ask for a quarantine. -/
theorem quarantine_source (h : (c.decision events).1 = .quarantine) :
    shouldQuarantineBatch (c.policyBatchResult events) = true ∨
      c.config.overrideDeliveryBehavior = some .quarantine ∨
        c.config.resolution.driftQuarantineRequired = true := by
  have hmem := (pickStrongest_cons_spec .allow
    ((mergeCandidates (c.policyBatchResult events) c.config).map Prod.fst)).1
  have hpick : pickStrongest (.allow :: (mergeCandidates (c.policyBatchResult events)
    c.config).map Prod.fst) = .quarantine := h
  rw [hpick] at hmem
  simp only [List.mem_cons, reduceCtorEq, mem_candidates_iff, true_and, false_and,
    false_or, or_false] at hmem
  rcases hmem with hq | ⟨b, hb, -, hd⟩ | hq
  · exact .inl hq
  · cases b <;> simp only [behaviorDecision, reduceCtorEq] at hd
    exact .inr (.inl hb)
  · exact .inr (.inr hq)

/-- Whatever asked for the quarantine, there is a row to write. -/
theorem quarantineRow_isSome (h : (c.decision events).1 = .quarantine) (hev : events ≠ []) :
    ∃ row, c.quarantineRow events = some row ∧ row.routeId = c.routeId ∧
      row.protectedPayload = events.take maxQuarantineEvents := by
  have hsource := quarantine_source h
  have hpayload : (events.take maxQuarantineEvents).isEmpty = false := by
    cases events with
    | nil => exact absurd rfl hev
    | cons e es => rfl
  have hasked : ((matchedQuarantineEvaluations (c.quarantineBatchResult events)).isEmpty &&
      !c.driftOnly events &&
        !decide (c.config.overrideDeliveryBehavior = some .quarantine)) = false := by
    cases hdrift : c.driftOnly events with
    | true => simp
    | false =>
      have hresult : c.quarantineBatchResult events = c.policyBatchResult events := by
        simp [quarantineBatchResult, hdrift]
      cases hshould : shouldQuarantineBatch (c.policyBatchResult events) with
      | true =>
        have hne : (matchedQuarantineEvaluations (c.policyBatchResult events)).isEmpty = false := by
          simpa [shouldQuarantineBatch] using hshould
        simp [hresult, hne]
      | false =>
        have hoff : c.config.resolution.driftQuarantineRequired = false := by
          simpa [driftOnly, hshould] using hdrift
        simp [hshould, hoff] at hsource
        simp [hsource]
  unfold quarantineRow
  simp only [hasked, hpayload, Bool.false_eq_true, ↓reduceIte]
  exact ⟨_, rfl, rfl, rfl⟩

/-- The stage returns its decision and hands on the batch only when it is let out. -/
theorem routePolicyStage_spec {out : PolicyOutcome} (h : c.routePolicyStage events = .ok out) :
    out.result.decision = (c.decision events).1 ∧
      out.result.deliveryAllowed = deliveryAllowedForDecision (c.decision events).1 ∧
      out.events = if deliveryAllowedForDecision (c.decision events).1 then events else [] := by
  have hout : ∃ row, out = c.outcome events row := by
    unfold routePolicyStage at h
    split at h
    · split at h
      · simp at h
      · split at h
        · exact ⟨_, (Except.ok.inj h).symm⟩
        · simp at h
    · exact ⟨_, (Except.ok.inj h).symm⟩
  obtain ⟨row, rfl⟩ := hout
  exact ⟨rfl, rfl, rfl⟩

/-- A quarantine outside preview leaves its row, or the stage raises. -/
theorem routePolicyStage_quarantine (h : (c.decision events).1 = .quarantine) (hev : events ≠ [])
    (hpreview : c.previewOnly = false) :
    (c.insertSucceeds = true → ∃ out row, c.routePolicyStage events = .ok out ∧
        out.quarantineRow = some row ∧ row.routeId = c.routeId ∧
          row.protectedPayload = events.take maxQuarantineEvents) ∧
      (c.insertSucceeds = false →
        c.routePolicyStage events = .error c.quarantinePersistenceError) := by
  obtain ⟨row, hrow, hid, hpayload⟩ := quarantineRow_isSome h hev
  have hq : c.quarantines events = true := by simp [quarantines, h, hev, hpreview]
  constructor
  · intro hins
    exact ⟨c.outcome events (some row), row, by simp [routePolicyStage, hq, hrow, hins], rfl, hid,
      hpayload⟩
  · intro hins
    simp [routePolicyStage, hq, hrow, hins]

theorem answer_eq {classify : List Event → Except RunError (List Event)} {handed : List Event}
    (he : classify handed = .ok events) : c.answer classify handed =
      (c.routePolicyStage events).map fun out =>
        ⟨events, out.result.decision, out.quarantineRow⟩ := by
  cases hstage : c.routePolicyStage events <;>
    simp [answer, he, hstage, bind, Except.bind, pure, Except.pure, Except.map]

end PolicyCall

/-- The policy of the route `x` is decided and enforced in a run: its decision is the
strongest that applies, whatever the order of its sources; it is let out exactly when the
decision does not withhold it; when withheld, every send of the run but those of dynamic
routes is another route's; and a quarantine inserts a row, which stays when the run keeps its
rows, or aborts the run. -/
structure Enforced (r : RunInput) (rows : List Dedup.DeliveryLogRow) (x : RouteRun)
    (c : PolicyCall) (events : List Event) : Prop where
  applies : c.Applies events (c.decision events).1
  strongest : ∀ d, c.Applies events d →
    decisionPrecedence d ≤ decisionPrecedence (c.decision events).1
  order : ∀ c' : PolicyCall, c.Reordered c' → (c'.decision events).1 = (c.decision events).1
  allowed : ∀ out, c.routePolicyStage events = .ok out →
    out.result.decision = (c.decision events).1 ∧
      (out.result.deliveryAllowed = true ↔
        out.result.decision ∉ [PolicyDecision.block, .quarantine, .requireReview])
  withheld : (∀ out, c.routePolicyStage events = .ok out → out.result.deliveryAllowed = false) →
    (∀ p, r.stream.Prepares (r.batch rows) x p →
      attempts (r.stream.processRoutePipeline r.runOpts x p).2 = []) ∧
    ∀ a ∈ attempts (run r rows).effects, (∀ id, a.target ≠ .dynamicRoute id) →
      ∃ y ∈ r.stream.routes, y ≠ x ∧ ∃ p, r.stream.Prepares (r.batch rows) y p ∧
        deliveryAllowedForDecision p.decision = true ∧ a.events = p.protectedEvents
  quarantined : (c.decision events).1 = .quarantine → events ≠ [] → c.previewOnly = false →
    (c.insertSucceeds = true → r.EntersLoop rows → ∃ row : StreamQuarantineEvent,
      row.routeId = c.routeId ∧ row.protectedPayload = events.take maxQuarantineEvents ∧
        (row ∈ (run r rows).quarantineRows ↔ r.KeepsRows rows)) ∧
    (c.insertSucceeds = false → r.lockAcquired = true → r.sourceAllows = true →
      r.batch rows ≠ [] → r.runOpts.dryRun = false →
        ∃ e, (run r rows).outcome = .error e ∧ (run r rows).flushed = none)

theorem deliveryAllowed_iff (d : PolicyDecision) : deliveryAllowedForDecision d = true ↔
    d ∉ [PolicyDecision.block, .quarantine, .requireReview] := by
  cases d <;> decide

/-- A matching audit rule beside a stream default that quarantines. -/
def governedCall : PolicyCall where
  streamId := 1
  routeId := 10
  destinationId := 3
  streamRules := [{ name := "pii", conditionJson := [("sensitivity_class", .str "pii")] }]
  governance := [{ defaultDeliveryBehavior := some "quarantine" }]
  findings := [⟨"$.email", "pii"⟩]

def governedRoute (call : PolicyCall) : RouteRun where
  row := { id := call.routeId }
  policy := call.answer .ok

def governedRun : RunInput where
  stream :=
    { ref := { id := 1 }
      routes := [governedRoute governedCall]
      routeIds := by simp
      engines := plainEngines }
  fetched := .ok [[("email", .str "a@example.com")]]

theorem governedCall_quarantine :
    (governedCall.decision [[("email", .str "a@example.com")]]).1 = .quarantine := by
  have happ : governedCall.Applies [[("email", .str "a@example.com")]]
      (behaviorDecision .quarantine) :=
    .default (by simp [governedCall]) List.mem_cons_self rfl (by decide +kernel)
  have hle := (governedCall.decision_greatest _).2 _ happ
  cases hd : (governedCall.decision [[("email", .str "a@example.com")]]).1 <;>
    simp_all [decisionPrecedence, behaviorDecision]

/-- On a request session: route 10 inserts its row, then the insert of route 11 fails. -/
def abortedRun : RunInput where
  stream :=
    { ref := { id := 1 }
      routes := [governedRoute governedCall,
        governedRoute { governedCall with routeId := 11, insertSucceeds := false }]
      routeIds := by decide
      engines := plainEngines }
  session := some {}
  fetched := .ok [[("email", .str "a@example.com")]]

end RoutePolicy
