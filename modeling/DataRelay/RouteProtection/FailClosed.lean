import DataRelay.Protection.LiteralJoin
import DataRelay.RouteProtection.CacheTransparency

/-! Ambiguous legacy paths in a route: the engine refuses the rule, and the stage raises
unless the route is served the result of another one. -/
namespace RouteProtection
open Protection Delivery Reordering

/-- Rule `rule` comes to its turn on some event of the batch, which is `event` by then. -/
structure RuleTurn (w : Engines) (b : SharedBatch) (r : RouteContext) (caches : ResultCaches)
    (rule : Rule) (event : Event) : Prop where
  reached : ∃ events, (transformStage w b r caches.transform).1 = .ok events ∧
    ∃ first ∈ events, ∃ before after s,
      rulesInForce (r.protectionConfig b).rules (r.mergedEphemeral b) = before ++ rule :: after ∧
        protectEvent w.modes before { event := first } = .ok s ∧ s.event = event

/-- What the route does about a rule whose path is ambiguous on the event: the rule is refused
with a warning and the event left as it is, and the stage raises. -/
structure FailsClosed (w : Engines) (b : SharedBatch) (r : RouteContext) (caches : ResultCaches)
    (rule : Rule) (event : Event) : Prop where
  refused : Ambiguous rule.fieldPath event →
    applyRuleToEvent w.modes event rule =
      .ok ⟨.obj event, 0, some (ruleWarning rule ambiguousMessage)⟩
  raised : Ambiguous rule.fieldPath event →
    ∃ fieldPath ruleId, (routeStages w b r caches).1 = .error (.protection fieldPath ruleId)
  silent : ¬ Ambiguous rule.fieldPath event → ∀ segments,
    parseProtectionPath rule.fieldPath = .ok segments → segments ≠ [] →
      legacyPathHasLiteralDottedMember event rule.fieldPath segments = .ok false

/-- The stage comes to apply the rules itself: protection is on, no result is kept under the
route's key, and the scan for tokens raises over no path. -/
structure AppliesRules (w : Engines) (b : SharedBatch) (r : RouteContext) (caches : ResultCaches) :
    Prop where
  enabled : w.protectionEnabled = true
  uncached : Dict.get? (r.cacheKey b) caches.protection = none
  scanned : ∀ rule ∈ (r.protectionConfig b).rules ++ r.mergedEphemeral b, rule.enabled = true →
    rule.protectionMode = .tokenization →
      ∃ segments, parseProtectionPath rule.fieldPath = .ok segments

/-- The scan for tokens raises over a rule exactly when its path does not parse. -/
theorem tokenizationTargetsOf_ok_iff (rule : Rule) (event : Event) :
    (∃ ts, tokenizationTargetsOf rule event = .ok ts) ↔
      ∃ segments, parseProtectionPath rule.fieldPath = .ok segments := by
  unfold tokenizationTargetsOf
  cases hparse : parseProtectionPath rule.fieldPath with
  | error e => simp [bind, Except.bind]
  | ok segments =>
    refine ⟨fun _ => ⟨segments, rfl⟩, fun _ => ?_⟩
    simp only [bind, Except.bind, pure, Except.pure]
    cases segments with
    | nil => exact ⟨[], rfl⟩
    | cons s rest =>
      obtain ⟨fires, hguard, -⟩ := legacyGuard_eq event hparse (by simp)
      simp only [List.isEmpty_cons, Bool.false_eq_true, ↓reduceIte, hguard]
      cases fires with
      | true => exact ⟨_, rfl⟩
      | false => exact ⟨_, rfl⟩

section Warnings

variable {ctx : ModeContext}

/-- Warnings are only added. -/
theorem warnings_protectEvent {rules : List Rule} {s t : EventState}
    (h : protectEvent ctx rules s = .ok t) {x : ProtectionFieldWarning} (hx : x ∈ s.warnings) :
    x ∈ t.warnings := by
  induction rules generalizing s with
  | nil =>
    cases h
    exact hx
  | cons rule rules ih =>
    simp only [protectEvent, bind, Except.bind] at h
    split at h
    · cases h
    · exact ih h (List.mem_append_left _ hx)

theorem protectEvent_append {before after : List Rule} {s t : EventState}
    (h : protectEvent ctx before s = .ok t) :
    protectEvent ctx (before ++ after) s = protectEvent ctx after t := by
  induction before generalizing s with
  | nil =>
    cases h
    rfl
  | cons rule before ih =>
    simp only [protectEvent, List.cons_append, bind, Except.bind] at h ⊢
    split at h
    · cases h
    · exact ih h

/-- A refused rule leaves a warning behind, if the event is got through at all. -/
theorem protectEvent_refused {before after : List Rule} {rule : Rule} {s mid t : EventState}
    (hmid : protectEvent ctx before s = .ok mid) (hamb : Ambiguous rule.fieldPath mid.event)
    (h : protectEvent ctx (before ++ rule :: after) s = .ok t) : t.warnings ≠ [] := by
  rw [protectEvent_append hmid] at h
  simp only [protectEvent, applyRuleToEvent_of_ambiguous ctx hamb, bind, Except.bind] at h
  have hmem := warnings_protectEvent h
    (List.mem_append_right _ (List.mem_singleton_self (ruleWarning rule ambiguousMessage)))
  exact List.ne_nil_of_mem hmem

end Warnings

section Stage

variable {w : Engines} {b : SharedBatch} {r : RouteContext} {caches : ResultCaches}

/-- Where a rule is refused, no batch comes out of the engine without a warning. -/
theorem protectBatch_refused {events : List Event} {rules ephemeral before after : List Rule}
    {rule : Rule} {first : Event} {s : EventState} {result : ProtectBatchResult}
    (hfirst : first ∈ events)
    (hrules : rulesInForce rules ephemeral = before ++ rule :: after)
    (hs : protectEvent w.modes before { event := first } = .ok s)
    (hamb : Ambiguous rule.fieldPath s.event)
    (h : protectBatch w.modes true events rules ephemeral = .ok result) : result.warnings ≠ [] := by
  have hevents : events.isEmpty = false := by
    rw [List.isEmpty_eq_false_iff]
    exact List.ne_nil_of_mem hfirst
  have hforce : (rulesInForce rules ephemeral).isEmpty = false := by
    rw [List.isEmpty_eq_false_iff, hrules]
    simp
  simp only [protectBatch, hevents, hforce, Bool.not_true, Bool.or_self, Bool.false_eq_true,
    ↓reduceIte, bind, Except.bind] at h
  split at h
  · cases h
  · next states hstates =>
    simp only [pure, Except.pure, Except.ok.injEq] at h
    subst h
    obtain ⟨t, ht, hrun⟩ := Raising.mem_of_mapM_ok hstates hfirst
    rw [hrules] at hrun
    have hwarned := protectEvent_refused hs hamb hrun
    intro hnil
    apply hwarned
    rw [List.flatMap_eq_nil_iff] at hnil
    exact hnil t ht

/-- With nothing kept under its key the route gets what protecting its batch gives. -/
theorem routeStages_uncached {events : List Event}
    (hevents : (transformStage w b r caches.transform).1 = .ok events)
    (hnone : Dict.get? (r.cacheKey b) caches.protection = none) :
    (routeStages w b r caches).1 =
      (protectRoute w b r events).map fun result => ⟨events, result.events⟩ := by
  simp only [routeStages, hevents, Memo.serve, hnone]
  cases protectRoute w b r events <;> rfl

theorem routeStages_cached {events : List Event} {result : ProtectBatchResult}
    (hevents : (transformStage w b r caches.transform).1 = .ok events)
    (hsome : Dict.get? (r.cacheKey b) caches.protection = some result) :
    (routeStages w b r caches).1 = .ok ⟨events, result.events⟩ := by
  simp only [routeStages, hevents, Memo.serve, hsome]
  rfl

/-- What the stage raises comes from applying the rules itself. -/
theorem AppliesRules.of_raised {events : List Event} {fieldPath : String} {ruleId : Option ℤ}
    (hevents : (transformStage w b r caches.transform).1 = .ok events) (hne : events ≠ [])
    (hraised : (routeStages w b r caches).1 = .error (.protection fieldPath ruleId)) :
    AppliesRules w b r caches := by
  cases hcache : Dict.get? (r.cacheKey b) caches.protection with
  | some result =>
    rw [routeStages_cached hevents hcache] at hraised
    cases hraised
  | none =>
    rw [routeStages_uncached hevents hcache] at hraised
    unfold protectRoute at hraised
    simp only at hraised
    cases hscan : collectTokenizationTargets events
        ((r.protectionConfig b).rules ++ r.mergedEphemeral b) with
    | error e =>
      rw [hscan] at hraised
      cases hraised
    | ok ts =>
      rw [hscan] at hraised
      refine ⟨?_, hcache, ?_⟩
      · by_contra hoff
        rw [Bool.not_eq_true] at hoff
        have hbatch : protectBatch w.modes w.protectionEnabled events (r.protectionConfig b).rules
            (r.mergedEphemeral b) = .ok { events } := by
          simp [protectBatch, hoff, hne]
        rw [hbatch] at hraised
        cases hraised
      · intro rule hrule henabled hmode
        obtain ⟨event, hevent⟩ := List.exists_mem_of_ne_nil _ hne
        have hall := (collectTokenizationTargets_ok_iff _ _).mp ⟨ts, hscan⟩
        rw [← tokenizationTargetsOf_ok_iff rule event]
        exact hall event hevent rule hrule henabled hmode

/-- A stage that applies the rules itself raises over a refused one. -/
theorem AppliesRules.raises (h : AppliesRules w b r caches) {rule : Rule} {event : Event}
    (hturn : RuleTurn w b r caches rule event) (hamb : Ambiguous rule.fieldPath event) :
    ∃ fieldPath ruleId, (routeStages w b r caches).1 = .error (.protection fieldPath ruleId) := by
  obtain ⟨events, hevents, first, hfirst, before, after, s, hrules, hs, rfl⟩ := hturn.reached
  rw [routeStages_uncached hevents h.uncached]
  obtain ⟨ts, hts⟩ : ∃ ts, collectTokenizationTargets events
      ((r.protectionConfig b).rules ++ r.mergedEphemeral b) = .ok ts := by
    rw [collectTokenizationTargets_ok_iff]
    intro e _ rule' hrule' henabled hmode
    exact (tokenizationTargetsOf_ok_iff rule' e).mpr (h.scanned rule' hrule' henabled hmode)
  unfold protectRoute
  simp only [hts, h.enabled]
  cases hbatch : protectBatch w.modes true events (r.protectionConfig b).rules
      (r.mergedEphemeral b) with
  | error e =>
    simp only
    cases failingRule ((r.protectionConfig b).rules ++ r.mergedEphemeral b) with
    | none => exact ⟨_, _, rfl⟩
    | some failing => exact ⟨_, _, rfl⟩
  | ok result =>
    have hwarned := protectBatch_refused hfirst hrules hs hamb hbatch
    simp only
    cases hw : result.warnings with
    | nil => exact absurd hw hwarned
    | cons x rest => exact ⟨_, _, rfl⟩

end Stage

/-- Whenever a rule comes to its turn, the route fails closed over it exactly when its path is
not ambiguous there or the stage applies the rules itself. -/
theorem failsClosed_iff {w : Engines} {b : SharedBatch} {r : RouteContext} {caches : ResultCaches}
    {rule : Rule} {event : Event} (hturn : RuleTurn w b r caches rule event) :
    FailsClosed w b r caches rule event ↔
      (Ambiguous rule.fieldPath event → AppliesRules w b r caches) := by
  constructor
  · intro h hamb
    obtain ⟨events, hevents, first, hfirst, -⟩ := hturn.reached
    obtain ⟨fieldPath, ruleId, hraised⟩ := h.raised hamb
    exact AppliesRules.of_raised hevents (List.ne_nil_of_mem hfirst) hraised
  · intro h
    constructor
    · exact fun hamb => applyRuleToEvent_of_ambiguous w.modes hamb
    · exact fun hamb => (h hamb).raises hturn hamb
    · exact fun hamb segments hparse hne => legacyGuard_of_not_ambiguous hamb hparse hne

/-- The literal member is removed before the rule on the nested one comes to its turn. -/
def dropThenMaskCard : RouteContext where
  routeId := 1
  protectionRules :=
    [piiRule "$['card.number']" .dropField, piiRule "$.card.number" .fullMask]

/-- The same rules the other way round. -/
def maskThenDropCard : RouteContext where
  routeId := 2
  protectionRules :=
    [piiRule "$.card.number" .fullMask, piiRule "$['card.number']" .dropField]

def cardEvent : Event :=
  [("card.number", .str "4111"), ("card", .obj [("number", .str "4222")])]

def cardBatch : SharedBatch where
  streamId := 1
  extractedEvents := [cardEvent]

theorem cardEvent_ambiguous : Ambiguous "$.card.number" cardEvent := by
  refine ⟨[(.key "card", false), (.key "number", false)], by decide, ?_⟩
  rw [← couldAlias_iff]
  decide

/-- The mask stands first in the second route, so it meets the event as it came. -/
theorem maskThenDropCard_turn (caches : ResultCaches) :
    RuleTurn plainEngines cardBatch maskThenDropCard caches (piiRule "$.card.number" .fullMask)
      cardEvent := by
  refine ⟨[cardEvent], rfl, cardEvent, List.mem_singleton_self _, [],
    [piiRule "$['card.number']" .dropField], { event := cardEvent }, ?_, rfl, rfl⟩
  decide

/-- Alone the second route raises over the ambiguous path. -/
theorem maskThenDropCard_raises :
    ∃ fieldPath ruleId, (routeStages plainEngines cardBatch maskThenDropCard {}).1 =
      .error (.protection fieldPath ruleId) := by
  have hmodes : ∀ rule ∈ (maskThenDropCard.protectionConfig cardBatch).rules ++
      maskThenDropCard.mergedEphemeral cardBatch, rule.protectionMode ≠ .tokenization := by decide
  refine ((failsClosed_iff (maskThenDropCard_turn {})).mpr fun _ => ⟨rfl, rfl, ?_⟩).raised
    cardEvent_ambiguous
  intro rule hrule _ hmode
  exact absurd hmode (hmodes rule hrule)

/-- After the first route it is served that route's result and raises nothing. -/
theorem maskThenDropCard_served :
    ∃ caches, cachesAfter plainEngines cardBatch [dropThenMaskCard] {} = some caches ∧
      RuleTurn plainEngines cardBatch maskThenDropCard caches
        (piiRule "$.card.number" .fullMask) cardEvent ∧
      Ambiguous "$.card.number" cardEvent ∧
      (routeStages plainEngines cardBatch maskThenDropCard caches).1 =
        .ok ⟨[cardEvent], [[("card", .obj [("number", .str "********")])]]⟩ ∧
      ¬ FailsClosed plainEngines cardBatch maskThenDropCard caches
        (piiRule "$.card.number" .fullMask) cardEvent := by
  have hdrop : pathSelectors (piiRule "$['card.number']" .dropField).fieldPath =
      some [(.key "card.number", true)] := by decide +kernel
  have hmask : pathSelectors (piiRule "$.card.number" .fullMask).fieldPath =
      some [(.key "card", false), (.key "number", false)] := by decide
  have hdropStep : ruleStep fixedContext (piiRule "$['card.number']" .dropField) cardEvent =
      some [("card", .obj [("number", .str "4222")])] :=
    (ruleStep_eq_some_iff hdrop (by simp)).mpr ⟨rfl, rfl, rfl⟩
  have hmaskStep : ruleStep fixedContext (piiRule "$.card.number" .fullMask)
      [("card", .obj [("number", .str "4222")])] =
        some [("card", .obj [("number", .str "********")])] :=
    (ruleStep_eq_some_iff hmask (by simp)).mpr ⟨rfl, rfl, rfl⟩
  have hforce : rulesInForce (dropThenMaskCard.protectionConfig cardBatch).rules
      (dropThenMaskCard.mergedEphemeral cardBatch) = dropThenMaskCard.protectionRules := by decide
  obtain ⟨result, hresult, hevents⟩ :
      ∃ result, protectRoute plainEngines cardBatch dropThenMaskCard [cardEvent] = .ok result ∧
        result.events = [[("card", .obj [("number", .str "********")])]] := by
    refine protectRoute_single rfl ⟨[], rfl⟩ ?_
    rw [hforce]
    simp [dropThenMaskCard, plainEngines, runAll, hdropStep, hmaskStep]
  have hkey : dropThenMaskCard.cacheKey cardBatch = maskThenDropCard.cacheKey cardBatch := by
    decide
  have hafter : cachesAfter plainEngines cardBatch [dropThenMaskCard] {} =
      some ⟨[], [(maskThenDropCard.cacheKey cardBatch, result)]⟩ := by
    rw [← hkey]
    simp only [cachesAfter, routeStages, transformStage, dropThenMaskCard, cardBatch] at hresult ⊢
    simp [Memo.serve, hresult, Except.map, Dict.set]
  have hserved : (routeStages plainEngines cardBatch maskThenDropCard
      ⟨[], [(maskThenDropCard.cacheKey cardBatch, result)]⟩).1 =
        .ok ⟨[cardEvent], [[("card", .obj [("number", .str "********")])]]⟩ := by
    have hsome : Dict.get? (maskThenDropCard.cacheKey cardBatch)
        [(maskThenDropCard.cacheKey cardBatch, result)] = some result := by simp
    have htransformed : (transformStage plainEngines cardBatch maskThenDropCard []).1 =
        .ok [cardEvent] := rfl
    rw [routeStages_cached htransformed hsome, hevents]
  refine ⟨_, hafter, maskThenDropCard_turn _, cardEvent_ambiguous, hserved, fun h => ?_⟩
  obtain ⟨fieldPath, ruleId, hraised⟩ := h.raised cardEvent_ambiguous
  rw [hserved] at hraised
  cases hraised

end RouteProtection
