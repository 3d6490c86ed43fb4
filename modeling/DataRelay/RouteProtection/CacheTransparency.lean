import DataRelay.Lib.Raising
import DataRelay.Protection.RuleOrder
import DataRelay.RouteProtection.ResultCache

/-! Whether a route notices the caches it shares with the routes before it. The keys forget
the order of rules and members, so routes that share a key have to agree on it. -/
namespace RouteProtection
open Protection Delivery Reordering

/-- Every route gets what it would get with both caches empty. -/
def CachesTransparent (w : Engines) (b : SharedBatch) (routes : List RouteContext) : Prop :=
  ∀ before r after caches, routes = before ++ r :: after → r.enabled = true →
    cachesAfter w b before {} = some caches →
      (routeStages w b r caches).1 = (routeStages w b r {}).1

/-- Routes that share a key agree on the order the key forgets: of the members of their
transform, and of the rules on paths that do not part. -/
structure OrderedAlike (b : SharedBatch) (r s : RouteContext) : Prop where
  members : ∀ c d, r.transform = some c → s.transform = some d →
    transformConfigCacheKey c = transformConfigCacheKey d →
      c.payload.memberOrder = d.payload.memberOrder
  rules : r.cacheKey b = s.cacheKey b → SameOrder (r.pathsInForce b) (s.pathsInForce b)

/-- The scan for tokens raises only over a path, so it does not depend on the order. -/
theorem collectTokenizationTargets_ok_iff (events : List Event) (rules : List Rule) :
    (∃ ts, collectTokenizationTargets events rules = .ok ts) ↔
      ∀ event ∈ events, ∀ rule ∈ rules, rule.enabled = true →
        rule.protectionMode = .tokenization →
          ∃ ts, tokenizationTargetsOf rule event = .ok ts := by
  have hmap : (∃ ts, collectTokenizationTargets events rules = .ok ts) ↔
      ∃ ts, (events.mapM fun event => (rules.filter fun r =>
        r.enabled && decide (r.protectionMode = .tokenization)).mapM
          (tokenizationTargetsOf · event)) = .ok ts := by
    unfold collectTokenizationTargets
    simp only [bind, Except.bind]
    split <;> simp_all [pure, Except.pure]
  rw [hmap, Raising.mapM_ok_iff]
  simp only [Raising.mapM_ok_iff, List.mem_filter, Bool.and_eq_true, decide_eq_true_eq, and_imp]

namespace RulePayload

def action (p : RulePayload) : Action := ⟨p.fieldPath, p.protectionMode⟩

end RulePayload

/-- Equal keys hold the same rules up to order. -/
theorem sameFibers_rulesInForce {rules rules' ephemeral ephemeral' : List Rule}
    (hr : SameFibers RulePayload.fieldPath (rules.map (rulePayload "None"))
      (rules'.map (rulePayload "None")))
    (he : SameFibers RulePayload.fieldPath (ephemeral.map (rulePayload ""))
      (ephemeral'.map (rulePayload ""))) :
    SameFibers Action.fieldPath ((rulesInForce rules ephemeral).map Rule.action)
      ((rulesInForce rules' ephemeral').map Rule.action) := by
  have hpayload (u : String) (p : RulePayload → Bool) (l : List Rule) :
      (l.filter fun r => p (rulePayload u r)).map Rule.action =
        ((l.map (rulePayload u)).filter p).map RulePayload.action := by
    rw [List.filter_map, List.map_map]
    rfl
  have hpaths (path : String) : path ∈ (rules.filter (·.enabled)).map (·.fieldPath) ↔
      path ∈ (rules'.filter (·.enabled)).map (·.fieldPath) := by
    have hmem (l : List Rule) : path ∈ (l.filter (·.enabled)).map (·.fieldPath) ↔
        ∃ p ∈ l.map (rulePayload "None"), p.enabled = true ∧ p.fieldPath = path := by
      simp [rulePayload, and_assoc]
    rw [hmem, hmem]
    exact exists_congr fun p => by rw [hr.mem_iff p]
  have hfree : (fun rule : Rule => rule.enabled && decide (rule.fieldPath ∉
      (rules.filter (·.enabled)).map (·.fieldPath))) = fun rule => rule.enabled &&
        decide (rule.fieldPath ∉ (rules'.filter (·.enabled)).map (·.fieldPath)) := by
    funext rule
    simp only [hpaths]
  have hrules (l : List Rule) : (l.filter (·.enabled)).map Rule.action =
      ((l.map (rulePayload "None")).filter (·.enabled)).map RulePayload.action :=
    hpayload "None" (·.enabled) l
  have hephemeral (paths : List String) (l : List Rule) :
      (l.filter fun rule => rule.enabled && decide (rule.fieldPath ∉ paths)).map Rule.action =
        ((l.map (rulePayload "")).filter fun p =>
          p.enabled && decide (p.fieldPath ∉ paths)).map RulePayload.action :=
    hpayload "" (fun p => p.enabled && decide (p.fieldPath ∉ paths)) l
  unfold rulesInForce
  rw [List.map_append, List.map_append]
  refine SameFibers.append ?_ ?_
  · rw [hrules, hrules]
    exact (hr.filter _).map _ fun _ => rfl
  · rw [hfree, hephemeral, hephemeral]
    exact (he.filter _).map _ fun _ => rfl

theorem RouteTransformConfig.payload_injective {c d : RouteTransformConfig}
    (h : c.payload = d.payload) : c = d := by
  cases c
  cases d
  simpa [RouteTransformConfig.payload] using h

/-- Only the order of the members tells configurations with one key apart. -/
theorem transformConfigCacheKey_inj {c d : RouteTransformConfig}
    (hkey : transformConfigCacheKey c = transformConfigCacheKey d)
    (horder : c.payload.memberOrder = d.payload.memberOrder) : c = d :=
  RouteTransformConfig.payload_injective (Json.eq_of_sortKeys_eq _ _ hkey horder)

section Routes

variable (w : Engines) (b : SharedBatch)

/-- The transform of a route that shares nothing. -/
def ownTransform (r : RouteContext) : Except RouteError (List Event) :=
  match r.transform with
  | none => .ok b.extractedEvents
  | some c => applyRouteTransform w b c

/-- The protection of a route that shares nothing. -/
def ownProtection (r : RouteContext) : Except RouteError ProtectBatchResult :=
  (ownTransform w b r).bind (protectRoute w b r)

variable {w b} {r s : RouteContext}

theorem ownTransform_eq_of_key (h : OrderedAlike b r s) (hkey : r.cacheKey b = s.cacheKey b) :
    ownTransform w b r = ownTransform w b s := by
  have htransform : r.transform.map transformConfigCacheKey =
      s.transform.map transformConfigCacheKey := congrArg ProtectionKey.transformKey hkey
  unfold ownTransform
  cases hr : r.transform with
  | none =>
    cases hs : s.transform with
    | none => rfl
    | some d => simp [hr, hs] at htransform
  | some c =>
    cases hs : s.transform with
    | none => simp [hr, hs] at htransform
    | some d =>
      simp only [hr, hs, Option.map_some, Option.some.injEq] at htransform
      rw [transformConfigCacheKey_inj htransform (h.members c d hr hs htransform)]

theorem cleanBatch_eq_some_iff {result : Except String ProtectBatchResult} {events : List Event} :
    cleanBatch result = some events ↔
      ∃ out, result = .ok out ∧ out.warnings = [] ∧ out.events = events := by
  cases result with
  | error e => simp [cleanBatch]
  | ok out => simp [cleanBatch]

theorem protectRoute_eq_ok_iff {events : List Event} {out : ProtectBatchResult} :
    protectRoute w b r events = .ok out ↔
      (∃ ts, collectTokenizationTargets events
        ((r.protectionConfig b).rules ++ r.mergedEphemeral b) = .ok ts) ∧
      protectBatch w.modes w.protectionEnabled events (r.protectionConfig b).rules
        (r.mergedEphemeral b) = .ok out ∧ out.warnings = [] := by
  unfold protectRoute
  simp only
  split
  · next e he => simp [he]
  · next ts hts =>
    split
    · next e he => split <;> simp [hts, he]
    · next result hresult =>
      cases hw : result.warnings with
      | nil =>
        simp only [hts, hresult, Except.ok.injEq, exists_eq', true_and]
        exact ⟨fun h => ⟨h, h ▸ hw⟩, fun h => h.1⟩
      | cons first rest =>
        simp only [hts, hresult, Except.ok.injEq, exists_eq', true_and, reduceCtorEq, false_iff]
        rintro ⟨rfl, hnil⟩
        simp [hw] at hnil

/-- Routes with one key and one order protect a batch alike: a rule that could raise in the scan
stands in both. -/
theorem protectRoute_eq_of_key (h : OrderedAlike b r s) (hkey : r.cacheKey b = s.cacheKey b)
    {events : List Event} {out : ProtectBatchResult} (hr : protectRoute w b r events = .ok out) :
    ∃ out', protectRoute w b s events = .ok out' ∧ out'.events = out.events := by
  obtain ⟨hscan, hbatch, hclean⟩ := protectRoute_eq_ok_iff.mp hr
  have hrules := sameFibers_of_sortBy_eq _ (congrArg ProtectionKey.rules hkey)
  have hephemeral := sameFibers_of_sortBy_eq _ (congrArg ProtectionKey.ephemeral hkey)
  have hrun : cleanBatch (protectBatch w.modes w.protectionEnabled events
      (s.protectionConfig b).rules (s.mergedEphemeral b)) = some out.events := by
    have hown : cleanBatch (protectBatch w.modes w.protectionEnabled events
        (r.protectionConfig b).rules (r.mergedEphemeral b)) = some out.events :=
      cleanBatch_eq_some_iff.mpr ⟨out, hbatch, hclean, rfl⟩
    rw [cleanBatch_protectBatch] at hown ⊢
    rwa [← funext (runAll_sameOrder (sameFibers_rulesInForce hrules hephemeral) (h.rules hkey))]
  obtain ⟨out', hbatch', hclean', hevents⟩ := cleanBatch_eq_some_iff.mp hrun
  refine ⟨out', protectRoute_eq_ok_iff.mpr ⟨?_, hbatch', hclean'⟩, hevents⟩
  have hmem {u : String} {l l' : List Rule}
      (hl : SameFibers RulePayload.fieldPath (l.map (rulePayload u)) (l'.map (rulePayload u)))
      {rule : Rule} (hrule : rule ∈ l') : ∃ twin ∈ l, rulePayload u twin = rulePayload u rule := by
    simpa using (hl.mem_iff _).mpr (List.mem_map_of_mem hrule)
  rw [collectTokenizationTargets_ok_iff] at hscan ⊢
  intro event hevent rule hrule henabled hmode
  obtain ⟨u, twin, htwin, heq⟩ : ∃ u, ∃ twin ∈ (r.protectionConfig b).rules ++ r.mergedEphemeral b,
      rulePayload u twin = rulePayload u rule := by
    rcases List.mem_append.mp hrule with hrule | hrule
    · obtain ⟨twin, htwin, heq⟩ := hmem hrules hrule
      exact ⟨_, twin, List.mem_append_left _ htwin, heq⟩
    · obtain ⟨twin, htwin, heq⟩ := hmem hephemeral hrule
      exact ⟨_, twin, List.mem_append_right _ htwin, heq⟩
  have hpath : twin.fieldPath = rule.fieldPath := congrArg RulePayload.fieldPath heq
  have hsame : tokenizationTargetsOf rule event = tokenizationTargetsOf twin event := by
    simp only [tokenizationTargetsOf, hpath]
  rw [hsame]
  exact hscan event hevent twin htwin ((congrArg RulePayload.enabled heq).trans henabled)
    ((congrArg RulePayload.protectionMode heq).trans hmode)

theorem ownProtection_eq_of_key (h : OrderedAlike b r s) (hkey : r.cacheKey b = s.cacheKey b)
    {out : ProtectBatchResult} (hr : ownProtection w b r = .ok out) :
    (ownProtection w b s).map (·.events) = .ok out.events := by
  unfold ownProtection at hr ⊢
  rw [ownTransform_eq_of_key h hkey] at hr
  cases hs : ownTransform w b s with
  | error e => simp [hs, Except.bind] at hr
  | ok events =>
    simp only [hs, Except.bind] at hr ⊢
    obtain ⟨out', hout', hevents⟩ := protectRoute_eq_of_key h hkey hr
    simp [hout', Except.map, hevents]

/-- Every cached result is the own result of a route that went before. -/
structure CachesTraced (w : Engines) (b : SharedBatch) (past : List RouteContext)
    (caches : ResultCaches) : Prop where
  transform : Memo.Traced transformConfigCacheKey (applyRouteTransform w b)
    (past.filterMap (·.transform)) caches.transform
  protection : Memo.Traced (·.cacheKey b) (ownProtection w b) past caches.protection

theorem cachesTraced_nil : CachesTraced w b [] {} :=
  ⟨Memo.traced_nil _ _ _, Memo.traced_nil _ _ _⟩

/-- The transform stage serves the route's own transform and keeps the trace. -/
theorem transformStage_traced {past : List RouteContext} {caches : ResultCaches}
    (h : CachesTraced w b past caches) (halike : ∀ s ∈ past, OrderedAlike b s r) :
    (transformStage w b r caches.transform).1 = ownTransform w b r ∧
      Memo.Traced transformConfigCacheKey (applyRouteTransform w b)
        ((past ++ [r]).filterMap (·.transform)) (transformStage w b r caches.transform).2 := by
  unfold transformStage ownTransform
  rw [List.filterMap_append]
  cases hr : r.transform with
  | none => simpa [hr] using h.transform
  | some c =>
    refine ⟨h.transform.serve_eq fun d hd hkey => ?_, by simpa [hr] using h.transform.serve c⟩
    obtain ⟨s, hs, hsd⟩ := List.mem_filterMap.mp hd
    rw [transformConfigCacheKey_inj hkey ((halike s hs).members d c hsd hr hkey)]

/-- What a route gets when nothing is cached. -/
theorem routeStages_fresh (w : Engines) (b : SharedBatch) (r : RouteContext) :
    (routeStages w b r {}).1 = (ownTransform w b r).bind fun events =>
      ((ownProtection w b r).map (·.events)).map (RouteEvents.mk events) := by
  have htransform : (transformStage w b r []).1 = ownTransform w b r := by
    unfold transformStage ownTransform
    cases r.transform with
    | none => rfl
    | some c => exact Memo.serve_nil _ _
  unfold routeStages ownProtection
  simp only [htransform]
  cases ownTransform w b r with
  | error e => rfl
  | ok events =>
    simp only [Except.bind, Memo.serve_nil]
    cases protectRoute w b r events <;> rfl

/-- One turn of the loop: the route notices nothing, and the caches stay traced. -/
theorem routeStages_traced {past : List RouteContext} {caches : ResultCaches}
    (h : CachesTraced w b past caches) (halike : ∀ s ∈ past, OrderedAlike b s r) :
    (routeStages w b r caches).1 = (routeStages w b r {}).1 ∧
      ∀ out, (routeStages w b r caches).1 = .ok out →
        CachesTraced w b (past ++ [r]) (routeStages w b r caches).2 := by
  obtain ⟨hown, htraced⟩ := transformStage_traced h halike
  rw [routeStages_fresh]
  unfold routeStages
  simp only [hown]
  cases hevents : ownTransform w b r with
  | error e => simp [Except.bind]
  | ok events =>
    have hprotect : protectRoute w b r events = ownProtection w b r := by
      simp [ownProtection, hevents, Except.bind]
    have hview := h.protection.serve_view (·.events) fun s hs hkey out hout =>
      ownProtection_eq_of_key (halike s hs) hkey hout
    simp only [Except.bind, hprotect]
    refine ⟨?_, fun out _ => ⟨htraced, h.protection.serve r⟩⟩
    rw [← hview]
    cases (Memo.serve (r.cacheKey b) (ownProtection w b r) caches.protection).1 <;> rfl

/-- The caches after any run of the loop are traced to the routes it went through. -/
theorem cachesAfter_traced {routes past : List RouteContext} {caches final : ResultCaches}
    (h : CachesTraced w b past caches)
    (halike : ∀ r ∈ routes, r.enabled = true → ∀ s ∈ past ++ routes, s.enabled = true →
      OrderedAlike b s r)
    (hpast : ∀ s ∈ past, s.enabled = true) (hrun : cachesAfter w b routes caches = some final) :
    CachesTraced w b (past ++ routes.filter (·.enabled)) final := by
  induction routes generalizing past caches with
  | nil => simpa [cachesAfter, ← Option.some.inj hrun] using h
  | cons r routes ih =>
    by_cases hr : r.enabled = true
    · have hstep := routeStages_traced h fun s hs =>
        halike r (by simp) hr s (by simp [hs]) (hpast s hs)
      simp only [cachesAfter, hr, Bool.not_true, Bool.false_eq_true, ↓reduceIte] at hrun
      split at hrun
      · next out caches' hout =>
        have htraced := hstep.2 out (by rw [hout])
        rw [hout] at htraced
        have hpast' : ∀ s ∈ past ++ [r], s.enabled = true := by
          intro s hs
          rcases List.mem_append.mp hs with hs | hs
          · exact hpast s hs
          · exact List.mem_singleton.mp hs ▸ hr
        have hrest := ih htraced (fun t ht hte s hs hse =>
          halike t (by simp [ht]) hte s (by simpa [List.append_assoc] using hs) hse) hpast' hrun
        simpa [hr, List.append_assoc] using hrest
      · cases hrun
    · have hrest := ih h (fun t ht hte s hs hse => halike t (by simp [ht]) hte s (by
        rcases List.mem_append.mp hs with hs | hs
        · simp [hs]
        · simp [hs]) hse) hpast (by simpa [cachesAfter, hr] using hrun)
      simpa [hr] using hrest

end Routes

/-- The caches go unnoticed in every list of routes that agree, wherever they share a key, on
the order the key forgets. -/
theorem cachesTransparent_of_orderedAlike (w : Engines) (b : SharedBatch)
    (routes : List RouteContext)
    (halike : ∀ r ∈ routes, ∀ s ∈ routes, r.enabled = true → s.enabled = true →
      OrderedAlike b r s) : CachesTransparent w b routes := by
  intro before r after caches hroutes hr hrun
  subst hroutes
  have htraced : CachesTraced w b ([] ++ before.filter (·.enabled)) caches :=
    cachesAfter_traced cachesTraced_nil
      (fun t ht hte s hs hse => halike s (by simp_all) t (by simp [ht]) hse hte) (by simp) hrun
  refine (routeStages_traced htraced fun s hs => ?_).1
  rw [List.nil_append, List.mem_filter] at hs
  exact halike s (by simp [hs.1]) r (by simp) hs.2 hr

/-- Engines that leave the batch as it is. -/
def plainEngines : Engines := ⟨fun _ events => .ok events, fixedContext, true⟩

def piiRule (fieldPath : String) (mode : ProtectionMode) : Rule where
  streamId := 1
  fieldPath := fieldPath
  protectionMode := mode
  sensitivityClass := some "pii"

theorem sameOrder_swap {p q : String} (h : pathsPart p q = true) : SameOrder [p, q] [q, p] := by
  intro a c hac
  have hone : ¬ ((p = a ∨ p = c) ∧ (q = a ∨ q = c)) ∨ p = q := by
    by_contra hboth
    push Not at hboth
    obtain ⟨⟨hp, hq⟩, hne⟩ := hboth
    rcases hp with rfl | rfl <;> rcases hq with rfl | rfl
    · exact hne rfl
    · simp [h] at hac
    · simp [pathsPart_symm, h] at hac
    · exact hne rfl
  rcases hone with hone | rfl
  · by_cases hp : p = a ∨ p = c <;> by_cases hq : q = a ∨ q = c <;> simp_all
  · rfl

/-- Masks on separate members, in either order. -/
def maskedRoutes : List RouteContext :=
  [{ routeId := 1, protectionRules := [piiRule "$.ssn" .fullMask, piiRule "$.email" .fullMask] },
   { routeId := 2, protectionRules := [piiRule "$.email" .fullMask, piiRule "$.ssn" .fullMask] }]

def contactBatch : SharedBatch where
  streamId := 1
  extractedEvents := [[("ssn", .str "1"), ("email", .str "a@b.c")]]

theorem maskedRoutes_orderedAlike {r s : RouteContext} (hr : r ∈ maskedRoutes)
    (hs : s ∈ maskedRoutes) : OrderedAlike contactBatch r s := by
  have hpart : pathsPart "$.ssn" "$.email" = true := by decide
  have hpart' : pathsPart "$.email" "$.ssn" = true := by decide
  have hplain : ∀ r ∈ maskedRoutes, r.transform = none := by decide
  refine ⟨fun c d hc => by simp [hplain r hr] at hc, fun _ => ?_⟩
  have horders : ∀ r ∈ maskedRoutes, r.pathsInForce contactBatch = ["$.ssn", "$.email"] ∨
      r.pathsInForce contactBatch = ["$.email", "$.ssn"] := by decide
  rcases horders r hr with hr | hr <;> rcases horders s hs with hs | hs <;> rw [hr, hs]
  · exact fun _ _ _ => rfl
  · exact sameOrder_swap hpart
  · exact sameOrder_swap hpart'
  · exact fun _ _ _ => rfl

/-- The two routes share a result, and get what each would get alone. -/
theorem maskedRoutes_transparent :
    (maskedRoutes.map (·.cacheKey contactBatch)).Pairwise (· = ·) ∧
      CachesTransparent plainEngines contactBatch maskedRoutes :=
  ⟨by decide, cachesTransparent_of_orderedAlike _ _ _ fun _ hr _ hs _ _ =>
    maskedRoutes_orderedAlike hr hs⟩

/-- The number of the first item is masked before the first item is removed. -/
def maskThenDrop : RouteContext where
  routeId := 1
  protectionRules := [piiRule "$.items[0].ssn" .fullMask, piiRule "$.items[0]" .dropField]

/-- The same rules the other way round. -/
def dropThenMask : RouteContext where
  routeId := 2
  protectionRules := [piiRule "$.items[0]" .dropField, piiRule "$.items[0].ssn" .fullMask]

def itemsEvent (ssns : List String) : Event :=
  [("items", .arr (ssns.map fun ssn => .obj [("ssn", .str ssn)]))]

def itemsBatch : SharedBatch where
  streamId := 1
  extractedEvents := [itemsEvent ["1", "2"]]

/-- A single event whose rules all go through. -/
theorem protectRoute_single {w : Engines} {b : SharedBatch} {r : RouteContext} {event out : Event}
    (hswitch : w.protectionEnabled = true)
    (hscan : ∃ ts, collectTokenizationTargets [event]
      ((r.protectionConfig b).rules ++ r.mergedEphemeral b) = .ok ts)
    (hout : runAll (ruleStep w.modes)
      (rulesInForce (r.protectionConfig b).rules (r.mergedEphemeral b)) event = some out) :
    ∃ result, protectRoute w b r [event] = .ok result ∧ result.events = [out] := by
  have hclean : cleanBatch (protectBatch w.modes w.protectionEnabled [event]
      (r.protectionConfig b).rules (r.mergedEphemeral b)) = some [out] := by
    rw [cleanBatch_protectBatch]
    simp [hswitch, hout]
  obtain ⟨result, hbatch, hwarnings, hevents⟩ := cleanBatch_eq_some_iff.mp hclean
  exact ⟨result, protectRoute_eq_ok_iff.mpr ⟨hscan, hbatch, hwarnings⟩, hevents⟩

/-- The removal moves the second item to the front, where only a later mask meets it. -/
theorem swappedRules_own :
    (∃ out, protectRoute plainEngines itemsBatch maskThenDrop [itemsEvent ["1", "2"]] = .ok out ∧
      out.events = [itemsEvent ["2"]]) ∧
    ∃ out, protectRoute plainEngines itemsBatch dropThenMask [itemsEvent ["1", "2"]] = .ok out ∧
      out.events = [itemsEvent ["********"]] := by
  have hmask : pathSelectors "$.items[0].ssn" =
      some [(.key "items", false), (.index 0, false), (.key "ssn", false)] := by decide
  have hdrop : pathSelectors "$.items[0]" = some [(.key "items", false), (.index 0, false)] := by
    decide
  have hmaskStep : ruleStep fixedContext (piiRule "$.items[0].ssn" .fullMask)
      (itemsEvent ["1", "2"]) = some (itemsEvent ["********", "2"]) :=
    (ruleStep_eq_some_iff hmask (by simp)).mpr ⟨by decide, by decide, by decide⟩
  have hmaskLast : ruleStep fixedContext (piiRule "$.items[0].ssn" .fullMask)
      (itemsEvent ["2"]) = some (itemsEvent ["********"]) :=
    (ruleStep_eq_some_iff hmask (by simp)).mpr ⟨by decide, by decide, by decide⟩
  have hdropStep (ssn : String) : ruleStep fixedContext (piiRule "$.items[0]" .dropField)
      (itemsEvent [ssn, "2"]) = some (itemsEvent ["2"]) :=
    (ruleStep_eq_some_iff hdrop (by simp)).mpr ⟨rfl, rfl, rfl⟩
  have hfirst : rulesInForce (maskThenDrop.protectionConfig itemsBatch).rules
      (maskThenDrop.mergedEphemeral itemsBatch) = maskThenDrop.protectionRules := by decide
  have hsecond : rulesInForce (dropThenMask.protectionConfig itemsBatch).rules
      (dropThenMask.mergedEphemeral itemsBatch) = dropThenMask.protectionRules := by decide
  refine ⟨protectRoute_single rfl ⟨[], rfl⟩ ?_, protectRoute_single rfl ⟨[], rfl⟩ ?_⟩
  · rw [hfirst]
    simp [maskThenDrop, plainEngines, runAll, hmaskStep, hdropStep]
  · rw [hsecond]
    simp [dropThenMask, plainEngines, runAll, hmaskLast, hdropStep]

/-- The second route is handed the first one's events, with a number it would have masked. -/
theorem swappedRules_not_transparent :
    maskThenDrop.cacheKey itemsBatch = dropThenMask.cacheKey itemsBatch ∧
      (∃ caches, cachesAfter plainEngines itemsBatch [maskThenDrop] {} = some caches ∧
        (routeStages plainEngines itemsBatch dropThenMask caches).1 =
          .ok ⟨[itemsEvent ["1", "2"]], [itemsEvent ["2"]]⟩) ∧
      (routeStages plainEngines itemsBatch dropThenMask {}).1 =
        .ok ⟨[itemsEvent ["1", "2"]], [itemsEvent ["********"]]⟩ ∧
      ¬ CachesTransparent plainEngines itemsBatch [maskThenDrop, dropThenMask] := by
  have hkey : maskThenDrop.cacheKey itemsBatch = dropThenMask.cacheKey itemsBatch := by decide
  obtain ⟨⟨first, hfirst, hfirstEvents⟩, second, hsecond, hsecondEvents⟩ := swappedRules_own
  have hafter : cachesAfter plainEngines itemsBatch [maskThenDrop] {} =
      some ⟨[], [(dropThenMask.cacheKey itemsBatch, first)]⟩ := by
    rw [← hkey]
    simp only [cachesAfter, routeStages, transformStage, maskThenDrop, itemsBatch] at hfirst ⊢
    simp [Memo.serve, hfirst, Except.map, Dict.set]
  have hcached : (routeStages plainEngines itemsBatch dropThenMask
      ⟨[], [(dropThenMask.cacheKey itemsBatch, first)]⟩).1 =
        .ok ⟨[itemsEvent ["1", "2"]], [itemsEvent ["2"]]⟩ := by
    simp [routeStages, transformStage, dropThenMask, itemsBatch, Memo.serve, Except.map,
      hfirstEvents]
  have hfresh : (routeStages plainEngines itemsBatch dropThenMask {}).1 =
      .ok ⟨[itemsEvent ["1", "2"]], [itemsEvent ["********"]]⟩ := by
    simp only [routeStages, transformStage, dropThenMask, itemsBatch] at hsecond ⊢
    simp [Memo.serve, hsecond, Except.map, hsecondEvents]
  refine ⟨hkey, ⟨_, hafter, hcached⟩, hfresh, fun h => ?_⟩
  have := h [maskThenDrop] dropThenMask [] _ rfl rfl hafter
  rw [hcached, hfresh] at this
  exact absurd this (by decide)

end RouteProtection
