import DataRelay.RouteProtection.Resolver

/-! Whether auto-protect reaches a route. The ephemeral rule is left out for a path the
stream's rules already name, but a route with rules of its own does not inherit those. -/
namespace RouteProtection
open Protection SchemaDrift

/-- The rule replaces or removes the value. -/
def Masks (rule : Rule) : Prop := rule.protectionMode ∈ protectionModes

instance (rule : Rule) : Decidable (Masks rule) := inferInstanceAs (Decidable (_ ∈ _))

/-- What an override asks for at `path`. -/
def overrideAt (path : String) (o : RouteOverride) : Option OverrideAction :=
  if o.enabled = true ∧ PyText.strip o.fieldPath = path ∧ path ≠ "" then
    mapProtectionActionToMode o.protectionAction
  else none

theorem overrideAt_masks {path : String} {o : RouteOverride} {m : ProtectionMode}
    (h : overrideAt path o = some (.mode m)) : m ∈ protectionModes := by
  have hall : ∀ p ∈ protectionActions, p.2 = .mode m → m ∈ protectionModes := by
    simp +contextual [protectionActions, protectionModes, eq_comm]
  unfold overrideAt at h
  split_ifs at h
  obtain ⟨text, -, h⟩ := Option.bind_eq_some_iff.mp h
  exact hall _ (Dict.mem_of_get? h) rfl

/-- A rule dictionary: one enabled rule for each path, under that path. -/
structure Indexed (d : List (String × Rule)) : Prop where
  nodup : (d.map Prod.fst).Nodup
  keyed : ∀ m ∈ d, m.2.fieldPath = m.1 ∧ m.2.enabled = true

theorem Indexed.set {d : List (String × Rule)} (h : Indexed d) {path : String} {rule : Rule}
    (hp : rule.fieldPath = path) (he : rule.enabled = true) : Indexed (Dict.set path rule d) := by
  refine ⟨Dict.nodup_set h.nodup path rule, ?_⟩
  rintro ⟨k, r⟩ hm
  rcases Dict.mem_set hm with ⟨rfl, rfl⟩ | hm
  · exact ⟨hp, he⟩
  · exact h.keyed _ hm

theorem Indexed.erase {d : List (String × Rule)} (h : Indexed d) (path : String) :
    Indexed (Dict.erase path d) :=
  ⟨Dict.nodup_erase h.nodup path, fun m hm => h.keyed m (Dict.mem_of_mem_erase hm)⟩

theorem Indexed.mem_rules_iff {d : List (String × Rule)} (h : Indexed d) {path : String}
    {r : Rule} : r ∈ d.map Prod.snd ∧ r.fieldPath = path ↔ Dict.get? path d = some r := by
  rw [← Dict.mem_iff_get? h.nodup]
  constructor
  · rintro ⟨hr, rfl⟩
    obtain ⟨⟨k, r⟩, hm, rfl⟩ := List.mem_map.mp hr
    exact (h.keyed _ hm).1 ▸ hm
  · intro hm
    exact ⟨List.mem_map.mpr ⟨_, hm, rfl⟩, (h.keyed _ hm).1⟩

theorem indexRulesByPath_indexed (rules : List Rule) : Indexed (indexRulesByPath rules) := by
  have hfold (d : List (String × Rule)) (hd : Indexed d) : Indexed (rules.foldl
      (fun indexed rule => if rule.enabled then Dict.set rule.fieldPath rule indexed
        else indexed) d) := by
    induction rules generalizing d with
    | nil => exact hd
    | cons rule rules ih =>
      refine ih _ ?_
      simp only
      split_ifs with he
      · exact hd.set rfl he
      · exact hd
  exact hfold [] ⟨by simp, by simp⟩

section Overrides

variable {streamId : ℤ} {s : OverrideState} {o : RouteOverride} {path : String}

theorem applyOverride_indexed (h : Indexed s.effective) :
    Indexed (applyOverride streamId s o).effective := by
  unfold applyOverride
  simp only
  split
  · exact h
  · split
    · exact h
    · exact h.erase _
    · exact h.set rfl rfl

/-- An override that asks nothing at `path` changes nothing there. -/
theorem applyOverride_none (hne : path ≠ "") (h : overrideAt path o = none) :
    Dict.get? path (applyOverride streamId s o).effective = Dict.get? path s.effective ∧
      Dict.get? path (applyOverride streamId s o).overrideRulesByPath =
        Dict.get? path s.overrideRulesByPath ∧
      (path ∈ (applyOverride streamId s o).auditOnlyPaths ↔ path ∈ s.auditOnlyPaths) := by
  unfold applyOverride
  simp only
  split
  · simp
  · next hskip =>
    simp only [Bool.or_eq_true, Bool.not_eq_true', not_or, Bool.not_eq_false] at hskip
    split
    · simp
    all_goals
      next hact =>
      have hother : PyText.strip o.fieldPath ≠ path := by
        rintro rfl
        simp [overrideAt, hskip.1, hne, hact] at h
      simp [Dict.get?_erase_ne hother, hother, Ne.symm hother]

theorem applyOverride_mode {m : ProtectionMode} (h : overrideAt path o = some (.mode m)) :
    Dict.get? path (applyOverride streamId s o).effective = some (overrideEntry streamId o m) ∧
      (path ∈ (applyOverride streamId s o).auditOnlyPaths ↔ path ∈ s.auditOnlyPaths) := by
  unfold overrideAt at h
  split_ifs at h with hcond
  obtain ⟨hen, rfl, hne⟩ := hcond
  simp [applyOverride, hen, hne, h]

theorem applyOverride_auditOnly (h : overrideAt path o = some .auditOnly) :
    path ∈ (applyOverride streamId s o).auditOnlyPaths := by
  unfold overrideAt at h
  split_ifs at h with hcond
  obtain ⟨hen, rfl, hne⟩ := hcond
  simp [applyOverride, hen, hne, h]

theorem foldl_applyOverride_indexed (os : List RouteOverride) {s : OverrideState}
    (h : Indexed s.effective) : Indexed (os.foldl (applyOverride streamId) s).effective := by
  induction os generalizing s with
  | nil => exact h
  | cons o os ih => exact ih (applyOverride_indexed h)

theorem mem_foldl_auditOnlyPaths (hne : path ≠ "") (os : List RouteOverride)
    (s : OverrideState) :
    path ∈ (os.foldl (applyOverride streamId) s).auditOnlyPaths ↔
      path ∈ s.auditOnlyPaths ∨ ∃ o ∈ os, overrideAt path o = some .auditOnly := by
  induction os generalizing s with
  | nil => simp
  | cons o os ih =>
    rw [List.foldl_cons, ih, List.exists_mem_cons_iff, ← or_assoc]
    refine or_congr_left ?_
    cases h : overrideAt path o with
    | none => simp [(applyOverride_none hne h).2.2]
    | some a =>
      cases a with
      | auditOnly => simp [applyOverride_auditOnly h]
      | mode m => simp [(applyOverride_mode h).2]

/-- Overrides that ask nothing at `path` leave it as it was. -/
theorem foldl_applyOverride_untouched (hne : path ≠ "") {os : List RouteOverride}
    (h : ∀ o ∈ os, overrideAt path o = none) (s : OverrideState) :
    Dict.get? path (os.foldl (applyOverride streamId) s).effective = Dict.get? path s.effective ∧
      Dict.get? path (os.foldl (applyOverride streamId) s).overrideRulesByPath =
        Dict.get? path s.overrideRulesByPath := by
  induction os generalizing s with
  | nil => exact ⟨rfl, rfl⟩
  | cons o os ih =>
    rw [List.forall_mem_cons] at h
    obtain ⟨iheff, ihover⟩ := ih h.2 (applyOverride streamId s o)
    exact ⟨iheff.trans (applyOverride_none hne h.1).1,
      ihover.trans (applyOverride_none hne h.1).2.1⟩

/-- A masking rule stands at `path`. -/
def MasksAt (path : String) (s : OverrideState) : Prop :=
  ∃ r, Dict.get? path s.effective = some r ∧ Masks r

theorem applyOverride_masksAt (hne : path ≠ "") (hno : overrideAt path o ≠ some .auditOnly)
    (h : MasksAt path s ∨ overrideAt path o ≠ none) :
    MasksAt path (applyOverride streamId s o) := by
  cases ho : overrideAt path o with
  | none =>
    obtain ⟨r, hr, hm⟩ := h.resolve_right (by simp [ho])
    exact ⟨r, (applyOverride_none hne ho).1.trans hr, hm⟩
  | some a =>
    cases a with
    | auditOnly => exact absurd ho hno
    | mode m => exact ⟨_, (applyOverride_mode ho).1, overrideAt_masks ho⟩

theorem foldl_applyOverride_masksAt (hne : path ≠ "") {os : List RouteOverride}
    (hno : ∀ o ∈ os, overrideAt path o ≠ some .auditOnly) {s : OverrideState}
    (h : MasksAt path s ∨ ∃ o ∈ os, overrideAt path o ≠ none) :
    MasksAt path (os.foldl (applyOverride streamId) s) := by
  induction os generalizing s with
  | nil => simpa using h
  | cons o os ih =>
    rw [List.forall_mem_cons] at hno
    rw [List.exists_mem_cons_iff, ← or_assoc] at h
    exact ih hno.2 (h.imp (applyOverride_masksAt hne hno.1) id)

end Overrides

/-- A route as the resolver sees it. -/
structure ProtectedRoute where
  routeId : ℤ
  enabled : Bool := true
  rules : List Rule := []

/-- The last enabled rule of `rules` on `path`. -/
def ruleAt (rules : List Rule) (path : String) : Option Rule :=
  (rules.filter fun r => r.enabled && decide (r.fieldPath = path)).getLast?

theorem get?_indexRulesByPath (rules : List Rule) (path : String) :
    Dict.get? path (indexRulesByPath rules) = ruleAt rules path := by
  induction rules using List.reverseRecOn with
  | nil => rfl
  | append_singleton rules r ih =>
    unfold indexRulesByPath ruleAt at ih ⊢
    rw [List.foldl_append, List.filter_append, List.getLast?_append]
    by_cases hen : r.enabled = true
    · by_cases hp : r.fieldPath = path
      · simp [hen, hp]
      · simpa [hen, hp] using ih
    · simpa [hen] using ih

theorem ruleAt_map_streamId (rules : List Rule) (path : String) (streamId : ℤ) :
    ruleAt (rules.map ({ · with streamId })) path = (ruleAt rules path).map ({ · with streamId }) := by
  simp [ruleAt, List.filter_map, Function.comp_def, List.getLast?_map]

section Batch

variable {b : DriftBatch} {item : UnknownFieldMatch}

/-- An unknown normal field of the batch is under quarantine. -/
def QuarantinesNormal (b : DriftBatch) : Prop :=
  b.config.unknownNormalFieldPolicy = .quarantine ∧
    ∃ other ∈ b.unknownFields, other.isSensitive = false

/-- An unknown sensitive field of the batch under policy auto-protect. -/
structure UnderAutoProtect (b : DriftBatch) (item : UnknownFieldMatch) : Prop where
  mem : item ∈ b.result.unknownFields
  sensitive : item.isSensitive = true
  policy : b.config.unknownSensitiveFieldPolicy = .autoProtect

/-- Only a quarantine outranks auto-protect. -/
theorem UnderAutoProtect.batchAction (h : UnderAutoProtect b item) :
    (QuarantinesNormal b → b.batchAction = some .quarantine) ∧
      (¬ QuarantinesNormal b → b.batchAction = some .autoProtect) := by
  have hmem : item ∈ b.unknownFields := (DriftBatch.result_of_mem h.mem).1 ▸ h.mem
  have hs : b.unknownFields.any (·.isSensitive) = true :=
    List.any_eq_true.mpr ⟨item, hmem, h.sensitive⟩
  have hle (p : Policy) : actionStrength p ≤ actionStrength .autoProtect ↔ p ≠ .quarantine := by
    cases p <;> simp [actionStrength]
  unfold DriftBatch.batchAction
  rw [resolveBatchAction_eq, h.policy, hs]
  cases hn : b.unknownFields.any (!·.isSensitive) with
  | false =>
    have hnone : ¬ QuarantinesNormal b := by
      rintro ⟨-, other, ho, hk⟩
      simp only [List.any_eq_false] at hn
      exact hn other ho (by simp [hk])
    simp [hnone]
  | true =>
    obtain ⟨other, ho, hk⟩ := List.any_eq_true.mp hn
    have hk : other.isSensitive = false := by simpa using hk
    have hq : QuarantinesNormal b ↔ b.config.unknownNormalFieldPolicy = .quarantine :=
      ⟨And.left, fun hp => ⟨hp, other, ho, hk⟩⟩
    rw [hq]
    constructor
    · intro hp
      simp [hp, actionStrength]
    · intro hp
      simp [(hle _).mpr hp]

/-- The ephemeral rules on the field's path. -/
theorem UnderAutoProtect.ephemeral (h : UnderAutoProtect b item) :
    ((∃ e ∈ b.result.ephemeralProtectionRules, e.fieldPath = item.enrichedPath) ↔
        item.enrichedPath ∉ b.existingPaths ∧ ¬ QuarantinesNormal b) ∧
      ∀ e ∈ b.result.ephemeralProtectionRules, e.enabled = true ∧ Masks e := by
  obtain ⟨hfields, action, base, hact, -, hbase, hres⟩ := DriftBatch.result_of_mem h.mem
  have hmem : item ∈ b.unknownFields := hfields ▸ h.mem
  by_cases hq : QuarantinesNormal b
  · obtain rfl : action = .quarantine := Option.some.inj (hact.symm.trans (h.batchAction.1 hq))
    have hnil : b.result.ephemeralProtectionRules = [] := by
      rw [hres]
      exact hbase
    simp [hnil, hq]
  · obtain rfl : action = .autoProtect := Option.some.inj (hact.symm.trans (h.batchAction.2 hq))
    have hrules : b.result.ephemeralProtectionRules = b.autoProtected.map fun i =>
        b.ephemeralRule i (autoProtectModeForClass i.sensitivityClass) := by
      rw [hres]
      rfl
    rw [hrules]
    refine ⟨⟨?_, ?_⟩, ?_⟩
    · rintro ⟨e, he, hpath⟩
      obtain ⟨i, hi, rfl⟩ := List.mem_map.mp he
      have hi := (List.mem_filter.mp hi).2
      simp only [Bool.and_eq_true, decide_eq_true_eq] at hi
      exact ⟨hpath ▸ hi.2, hq⟩
    · rintro ⟨hex, -⟩
      refine ⟨_, List.mem_map.mpr ⟨item, List.mem_filter.mpr ⟨hmem, ?_⟩, rfl⟩, rfl⟩
      simp [h.sensitive, h.policy, hex]
    · intro e he
      obtain ⟨i, -, rfl⟩ := List.mem_map.mp he
      refine ⟨rfl, ?_⟩
      have hmask := DriftBatch.autoProtectModeForClass_masks i.sensitivityClass
      simp only [List.mem_cons, List.not_mem_nil, or_false] at hmask
      rcases hmask with hm | hm <;> simp [Masks, DriftBatch.ephemeralRule, hm, protectionModes]

theorem UnderAutoProtect.path_ne (h : UnderAutoProtect b item) : item.enrichedPath ≠ "" := by
  intro hempty
  have hex := DriftBatch.pathExists_of_mem ((DriftBatch.result_of_mem h.mem).1 ▸ h.mem)
  rw [hempty, b.empty_absent] at hex
  cases hex

/-- The configuration the route's protection stage works with. -/
def routeConfig (b : DriftBatch) (overrides : List RouteOverride) (route : ProtectedRoute) :
    RouteProtectionConfig :=
  resolveRouteProtectionConfig route.routeId b.streamId route.rules b.enabledRules overrides
    b.result.ephemeralProtectionRules

/-- The rules applied to the route's events. -/
def effectiveRules (b : DriftBatch) (overrides : List RouteOverride) (route : ProtectedRoute) :
    List Rule :=
  rulesInForce (routeConfig b overrides route).rules
    (mergeEphemeralForRoute b.result.ephemeralProtectionRules (routeConfig b overrides route))

/-- Every enabled route masks the field or has an audit-only override for it. -/
def ReachesRoutes (b : DriftBatch) (overrides : List RouteOverride)
    (routes : List ProtectedRoute) (item : UnknownFieldMatch) : Prop :=
  ∀ route ∈ routes, route.enabled = true →
    (∃ o ∈ overrides, o.routeId = route.routeId ∧
      overrideAt item.enrichedPath o = some .auditOnly) ∨
    ∃ rule ∈ effectiveRules b overrides route, rule.fieldPath = item.enrichedPath ∧ Masks rule

/-- The route has an override on the path, or a masking rule among the rules it starts from,
or no such rule while the ephemeral one is minted. -/
def PathCovered (b : DriftBatch) (overrides : List RouteOverride) (route : ProtectedRoute)
    (path : String) : Prop :=
  (∃ o ∈ overrides, o.routeId = route.routeId ∧ overrideAt path o ≠ none) ∨
    match ruleAt (persistedBase route.rules b.enabledRules).1 path with
    | some rule => Masks rule
    | none => path ∉ b.existingPaths ∧ ¬ QuarantinesNormal b

/-- In a rule dictionary the rules in force on a path are the one stored there, or else the
ephemeral ones. -/
theorem exists_rulesInForce {d : List (String × Rule)} (hd : Indexed d) {ephemeral : List Rule}
    {path : String} :
    (∃ rule ∈ rulesInForce (d.map Prod.snd) ephemeral, rule.fieldPath = path ∧ Masks rule) ↔
      match Dict.get? path d with
      | some rule => Masks rule
      | none => ∃ e ∈ ephemeral, e.enabled = true ∧ e.fieldPath = path ∧ Masks e := by
  have henabled : (d.map Prod.snd).filter (·.enabled) = d.map Prod.snd := by
    rw [List.filter_eq_self]
    intro r hr
    obtain ⟨m, hm, rfl⟩ := List.mem_map.mp hr
    exact (hd.keyed m hm).2
  simp only [rulesInForce, henabled, List.mem_append, List.mem_filter, Bool.and_eq_true,
    decide_eq_true_eq]
  cases hget : Dict.get? path d with
  | some r =>
    obtain ⟨hr, hpath⟩ := hd.mem_rules_iff.mpr hget
    constructor
    · rintro ⟨rule, hrule | ⟨-, -, hfresh⟩, hp, hm⟩
      · obtain rfl := Option.some.inj ((hd.mem_rules_iff.mp ⟨hrule, hp⟩).symm.trans hget)
        exact hm
      · exact absurd (List.mem_map.mpr ⟨r, hr, hpath.trans hp.symm⟩) hfresh
    · exact fun hm => ⟨r, .inl hr, hpath, hm⟩
  | none =>
    have hfresh (r : Rule) (hr : r ∈ d.map Prod.snd) : r.fieldPath ≠ path := fun hp => by
      simpa [hget] using hd.mem_rules_iff.mp ⟨hr, hp⟩
    constructor
    · rintro ⟨rule, hrule | ⟨hrule, hen, -⟩, hp, hm⟩
      · exact absurd hp (hfresh rule hrule)
      · exact ⟨rule, hrule, hen, hp, hm⟩
    · rintro ⟨e, he, hen, hp, hm⟩
      refine ⟨e, .inr ⟨he, hen, fun hmem => ?_⟩, hp, hm⟩
      obtain ⟨r, hr, hrp⟩ := List.mem_map.mp hmem
      exact hfresh r hr (hrp.trans hp)

/-- Without an override or a stored rule on a path, the ephemeral rules there pass through. -/
theorem mem_mergeEphemeralForRoute (ephemeral : List Rule) {config : RouteProtectionConfig}
    {path : String} (hne : path ≠ "") (haudit : path ∉ config.auditOnlyPaths)
    (hover : Dict.get? path config.overrideRulesByPath = none)
    (hrules : path ∉ config.rules.map (·.fieldPath)) (e : Rule) :
    e ∈ mergeEphemeralForRoute ephemeral config ∧ e.fieldPath = path ↔
      e ∈ ephemeral ∧ e.fieldPath = path := by
  unfold mergeEphemeralForRoute
  rw [List.mem_filterMap]
  constructor
  · rintro ⟨⟨rule, hrule, hsome⟩, hp⟩
    split at hsome
    · cases hsome
    split at hsome
    · cases hsome
    split at hsome
    · next override hov =>
      obtain rfl := Option.some.inj hsome
      simp only at hp
      rw [hp, hover] at hov
      cases hov
    split at hsome
    · cases hsome
    · obtain rfl := Option.some.inj hsome
      exact ⟨hrule, hp⟩
  · rintro ⟨he, rfl⟩
    exact ⟨⟨e, he, by simp [hne, haudit, hover, hrules]⟩, rfl⟩

/-- One route gets the field masked exactly when its path is covered. -/
theorem route_reached_iff (h : UnderAutoProtect b item) (overrides : List RouteOverride)
    (route : ProtectedRoute) :
    ((∃ o ∈ overrides, o.routeId = route.routeId ∧
        overrideAt item.enrichedPath o = some .auditOnly) ∨
      ∃ rule ∈ effectiveRules b overrides route, rule.fieldPath = item.enrichedPath ∧
        Masks rule) ↔ PathCovered b overrides route item.enrichedPath := by
  have hne := h.path_ne
  have hown (p : Option OverrideAction → Prop) :
      (∃ o ∈ routeOverridesOf route.routeId overrides, p (overrideAt item.enrichedPath o)) ↔
        ∃ o ∈ overrides, o.routeId = route.routeId ∧ p (overrideAt item.enrichedPath o) := by
    simp [routeOverridesOf, and_assoc]
  have hidx : Indexed (applyRouteOverrides b.streamId
      ((persistedBase route.rules b.enabledRules).1.map ({ · with streamId := b.streamId }))
      (routeOverridesOf route.routeId overrides)).effective :=
    foldl_applyOverride_indexed _ (indexRulesByPath_indexed _)
  have hforce : (∃ rule ∈ effectiveRules b overrides route,
      rule.fieldPath = item.enrichedPath ∧ Masks rule) ↔ _ := exists_rulesInForce hidx
  rw [hforce]
  by_cases hany : ∃ o ∈ overrides, o.routeId = route.routeId ∧
      overrideAt item.enrichedPath o ≠ none
  · refine iff_of_true ?_ (.inl hany)
    by_cases haudit : ∃ o ∈ overrides, o.routeId = route.routeId ∧
        overrideAt item.enrichedPath o = some .auditOnly
    · exact .inl haudit
    · have hno : ∀ o ∈ routeOverridesOf route.routeId overrides,
          overrideAt item.enrichedPath o ≠ some .auditOnly := fun o ho ha =>
        haudit ((hown (· = some .auditOnly)).mp ⟨o, ho, ha⟩)
      obtain ⟨r, hr, hm⟩ := foldl_applyOverride_masksAt hne hno
        (.inr ((hown (· ≠ none)).mpr hany))
      right
      rw [applyRouteOverrides, hr]
      exact hm
  · have hnone : ∀ o ∈ routeOverridesOf route.routeId overrides,
        overrideAt item.enrichedPath o = none := fun o ho => by
      by_contra hn
      exact hany ((hown (· ≠ none)).mp ⟨o, ho, hn⟩)
    have haudit : ¬ ∃ o ∈ overrides, o.routeId = route.routeId ∧
        overrideAt item.enrichedPath o = some .auditOnly := by
      rintro ⟨o, ho, hid, ha⟩
      exact hany ⟨o, ho, hid, by simp [ha]⟩
    obtain ⟨heff, hover⟩ := foldl_applyOverride_untouched hne hnone
      { effective := indexRulesByPath ((persistedBase route.rules b.enabledRules).1.map
          ({ · with streamId := b.streamId })) }
    rw [get?_indexRulesByPath, ruleAt_map_streamId] at heff
    rw [or_iff_right haudit, PathCovered, or_iff_right hany, applyRouteOverrides, heff]
    cases hrule : ruleAt (persistedBase route.rules b.enabledRules).1 item.enrichedPath with
    | some r => exact Iff.rfl
    | none =>
      rw [hrule] at heff
      have hpaths : item.enrichedPath ∉ (routeConfig b overrides route).auditOnlyPaths := fun hm =>
        haudit ((hown (· = some .auditOnly)).mp
          (((mem_foldl_auditOnlyPaths hne _ _).mp hm).resolve_left (by simp)))
      have hrules : item.enrichedPath ∉
          (routeConfig b overrides route).rules.map (·.fieldPath) := fun hm => by
        obtain ⟨r, hr, hp⟩ := List.mem_map.mp hm
        have hget := heff.symm.trans (hidx.mem_rules_iff.mp ⟨hr, hp⟩)
        cases hget
      have hmerge := mem_mergeEphemeralForRoute b.result.ephemeralProtectionRules hne hpaths
        hover hrules
      rw [← h.ephemeral.1]
      constructor
      · rintro ⟨e, he, -, hp, -⟩
        exact ⟨e, (hmerge e).mp ⟨he, hp⟩⟩
      · rintro ⟨e, he, hp⟩
        obtain ⟨hen, hm⟩ := h.ephemeral.2 e he
        exact ⟨e, ((hmerge e).mpr ⟨he, hp⟩).1, hen, hp, hm⟩

/-- Auto-protect reaches every route exactly when each enabled one has the path covered. -/
theorem reachesRoutes_iff (b : DriftBatch) (overrides : List RouteOverride)
    (routes : List ProtectedRoute) (item : UnknownFieldMatch) (h : UnderAutoProtect b item) :
    ReachesRoutes b overrides routes item ↔
      ∀ route ∈ routes, route.enabled = true →
        PathCovered b overrides route item.enrichedPath := by
  unfold ReachesRoutes
  simp only [route_reached_iff h]

/-- The stream masks `$.ssn`, and the route has rules of its own for other paths. -/
def maskedStreamBatch : DriftBatch where
  enrichedEvents := [[("ssn", .str "900101")]]
  openDrifts := [⟨2, "field_added", "$.ssn"⟩]
  findings := [⟨"$.ssn", "pii"⟩]
  resolvePath := .ok
  pathExistsInBatch := fun path => decide (path = "$.ssn")
  enabledRules := [{ streamId := 1, fieldPath := "$.ssn", protectionMode := .fullMask }]

def ownRulesRoute : ProtectedRoute where
  routeId := 10
  rules := [{ streamId := 1, fieldPath := "$.email", protectionMode := .fullMask }]

def ssnField : UnknownFieldMatch := ⟨"$.ssn", "$.ssn", 2, true, some "pii"⟩

theorem maskedStreamBatch_under : UnderAutoProtect maskedStreamBatch ssnField :=
  ⟨by decide, rfl, rfl⟩

theorem maskedStreamBatch_not_reached :
    UnderAutoProtect maskedStreamBatch ssnField ∧
      ¬ ReachesRoutes maskedStreamBatch [] [ownRulesRoute] ssnField := by
  refine ⟨maskedStreamBatch_under, fun h => ?_⟩
  rcases h ownRulesRoute (by simp) rfl with ⟨o, ho, -⟩ | ⟨rule, hrule, hpath, -⟩
  · simp at ho
  · have hall : ∀ rule ∈ effectiveRules maskedStreamBatch [] ownRulesRoute,
        rule.fieldPath ≠ ssnField.enrichedPath := by decide
    exact hall rule hrule hpath

/-- A route without rules of its own inherits the stream's rule. -/
theorem maskedStreamBatch_inherited :
    UnderAutoProtect maskedStreamBatch ssnField ∧
      ReachesRoutes maskedStreamBatch [] [{ routeId := 11 }] ssnField := by
  refine ⟨maskedStreamBatch_under,
    (reachesRoutes_iff _ _ _ _ maskedStreamBatch_under).mpr fun route hroute _ => ?_⟩
  obtain rfl := List.mem_singleton.mp hroute
  have hrule : ruleAt (persistedBase [] maskedStreamBatch.enabledRules).1 ssnField.enrichedPath =
      some { streamId := 1, fieldPath := "$.ssn", protectionMode := .fullMask } := by decide
  right
  rw [hrule]
  decide

end Batch

end RouteProtection
