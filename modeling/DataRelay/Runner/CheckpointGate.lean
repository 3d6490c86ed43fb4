import DataRelay.RouteProtection.CacheTransparency
import DataRelay.Runner.StreamRun

/-! When a run stages a checkpoint. The five flags of a delivery result are reduced to
"delivers" and "blocks"; the fan-out loop is then a pair of quantifiers over the routes. The
order of the routes only matters for the results they share. -/
namespace Runner
open Delivery Dedup
open RouteProtection (ResultCaches OrderedAlike CachesTraced cachesTraced_nil routeStages
  routeStages_traced plainEngines piiRule maskedRoutes contactBatch maskedRoutes_orderedAlike)

/-- The fan-out loop counts the result as a real delivery. -/
def RouteDeliveryResult.delivers (d : RouteDeliveryResult) : Bool :=
  d.deliveryAllowed && decide (d.skipReason ≠ some .noEvents ∧
    d.skipReason ≠ some .destinationDisabled ∧ d.skipReason ≠ some .rateLimited ∧
      d.deliverySuccess = some true)

/-- The fan-out loop lets the result hold the checkpoint back. -/
def RouteDeliveryResult.blocks (d : RouteDeliveryResult) : Bool :=
  d.deliveryAllowed && decide (d.skipReason ≠ some .noEvents ∧
    d.skipReason ≠ some .destinationDisabled ∧ (d.skipReason = some .rateLimited ∨
      (d.deliverySuccess ≠ some true ∧
        ¬ (d.deliverySuccess = some false ∧ d.failureAbsorbed = true))))

theorem fanOutStep_spec (f : FanOutFlags) (x : RouteStageResult) :
    ((fanOutStep f x).anyDeliverySuccess = (f.anyDeliverySuccess || x.deliveryResult.delivers)) ∧
      ((fanOutStep f x).allRequiredRoutesSucceeded =
        (f.allRequiredRoutesSucceeded && !x.deliveryResult.blocks)) ∧
      ((f.anyDeliverySuccess = true → f.sawSendRoute = true) →
        (fanOutStep f x).anyDeliverySuccess = true → (fanOutStep f x).sawSendRoute = true) := by
  have hc : (countFailover f x.deliveryResult).anyDeliverySuccess = f.anyDeliverySuccess ∧
      (countFailover f x.deliveryResult).allRequiredRoutesSucceeded =
        f.allRequiredRoutesSucceeded ∧
      (countFailover f x.deliveryResult).sawSendRoute = f.sawSendRoute := by
    unfold countFailover
    split_ifs <;> exact ⟨rfl, rfl, rfl⟩
  obtain ⟨h1, h2, h3⟩ := hc
  simp only [fanOutStep]
  generalize countFailover f x.deliveryResult = g at h1 h2 h3
  rw [← h1, ← h2, ← h3]
  unfold RouteDeliveryResult.delivers RouteDeliveryResult.blocks
  cases x.deliveryResult.deliveryAllowed with
  | false => simp
  | true =>
    by_cases hskip : x.deliveryResult.skipReason = some .noEvents ∨
        x.deliveryResult.skipReason = some .destinationDisabled
    · rcases hskip with hs | hs <;> simp [hs]
    · obtain ⟨hn, hd⟩ := not_or.mp hskip
      by_cases hr : x.deliveryResult.skipReason = some .rateLimited
      · simp [hr]
      · rcases x.deliveryResult.deliverySuccess with _ | (_ | _)
        · simp [hn, hd, hr]
        · cases x.deliveryResult.failureAbsorbed <;> simp [hn, hd, hr]
        · simp [hn, hd, hr]

theorem foldl_fanOutStep (xs : List RouteStageResult) (f : FanOutFlags) :
    ((xs.foldl fanOutStep f).anyDeliverySuccess =
        (f.anyDeliverySuccess || xs.any (·.deliveryResult.delivers))) ∧
      ((xs.foldl fanOutStep f).allRequiredRoutesSucceeded =
        (f.allRequiredRoutesSucceeded && !xs.any (·.deliveryResult.blocks))) ∧
      ((f.anyDeliverySuccess = true → f.sawSendRoute = true) →
        (xs.foldl fanOutStep f).anyDeliverySuccess = true →
          (xs.foldl fanOutStep f).sawSendRoute = true) := by
  induction xs generalizing f with
  | nil => simp
  | cons x xs ih =>
    obtain ⟨h1, h2, h3⟩ := fanOutStep_spec f x
    obtain ⟨i1, i2, i3⟩ := ih (fanOutStep f x)
    refine ⟨?_, ?_, ?_⟩
    · rw [List.foldl_cons, i1, h1, List.any_cons, Bool.or_assoc]
    · rw [List.foldl_cons, i2, h2, List.any_cons, Bool.not_or, Bool.and_assoc]
    · intro hf
      exact i3 (h3 hf)

/-- The gate, in terms of the delivery results. -/
theorem successfulEvents_ne_nil_iff (pipeline : RoutePipelineResult) (reference : List Event)
    (href : reference ≠ []) :
    (routeDeliveryFanOutOutcome pipeline reference).successfulEvents ≠ [] ↔
      (∃ x ∈ pipeline.stageResults, x.deliveryResult.delivers = true) ∧
        ∀ x ∈ pipeline.stageResults, x.deliveryResult.blocks = false := by
  obtain ⟨hany, hall, hsaw⟩ := foldl_fanOutStep pipeline.stageResults {}
  have hany' : (pipeline.stageResults.foldl fanOutStep {}).anyDeliverySuccess = true ↔
      ∃ x ∈ pipeline.stageResults, x.deliveryResult.delivers = true := by
    rw [hany]
    simp
  have hall' : (pipeline.stageResults.foldl fanOutStep {}).allRequiredRoutesSucceeded = true ↔
      ∀ x ∈ pipeline.stageResults, x.deliveryResult.blocks = false := by
    rw [hall]
    simp
  rw [← hany', ← hall']
  unfold routeDeliveryFanOutOutcome
  cases hs : (pipeline.stageResults.foldl fanOutStep {}).sawSendRoute with
  | false =>
    have : (pipeline.stageResults.foldl fanOutStep {}).anyDeliverySuccess ≠ true := by
      intro h
      have := hsaw (by simp) h
      simp [hs] at this
    simp [hs, this]
  | true => simp [hs, href, and_comm]

namespace RunStream

variable {s : RunStream} {opts : StreamRunOptions} {batch : List Event}

/-- What the stages of the enabled routes give, in their order, up to the first that raises. -/
def stageOutcomes (s : RunStream) (batch : List Event) :
    List RouteRun → ResultCaches → List (RouteRun × Except RunError Prepared)
  | [], _ => []
  | r :: rs, caches =>
    if !r.row.enabled then stageOutcomes s batch rs caches
    else
      match s.stages batch r caches with
      | (.error e, _) => [(r, .error e)]
      | (.ok p, caches) => (r, .ok p) :: stageOutcomes s batch rs caches

/-- The route is enabled, the loop gets to it and its stages return `p`. -/
def Prepares (s : RunStream) (batch : List Event) (r : RouteRun) (p : Prepared) : Prop :=
  (r, .ok p) ∈ s.stageOutcomes batch s.routes {}

/-- The stages of every enabled route return. -/
def StagesReturn (s : RunStream) (batch : List Event) : Prop :=
  ∀ x ∈ s.stageOutcomes batch s.routes {}, ∃ p, x.2 = .ok p

theorem stageOutcomes_sublist (s : RunStream) (batch : List Event) (rs : List RouteRun)
    (caches : ResultCaches) :
    ((s.stageOutcomes batch rs caches).map Prod.fst).Sublist (rs.filter (·.row.enabled)) := by
  induction rs generalizing caches with
  | nil => exact List.Sublist.refl _
  | cons r rs ih =>
    unfold stageOutcomes
    cases hen : r.row.enabled with
    | false => simpa [hen] using ih caches
    | true =>
      simp only [List.filter_cons, hen, Bool.not_true, Bool.false_eq_true, ↓reduceIte]
      split
      · exact (List.nil_sublist _).cons_cons r
      · exact (ih _).cons_cons r

theorem Prepares.mem {r : RouteRun} {p : Prepared} (h : s.Prepares batch r p) :
    r ∈ s.routes ∧ r.row.enabled = true := by
  have hmem := (s.stageOutcomes_sublist batch s.routes {}).subset (List.mem_map_of_mem h)
  simpa using hmem

/-- A route is gone through once. -/
theorem stageOutcomes_unique {r : RouteRun} {o o' : Except RunError Prepared}
    (h : (r, o) ∈ s.stageOutcomes batch s.routes {})
    (h' : (r, o') ∈ s.stageOutcomes batch s.routes {}) : o = o' := by
  have hnodup : ((s.stageOutcomes batch s.routes {}).map Prod.fst).Nodup :=
    (s.stageOutcomes_sublist batch s.routes {}).nodup (s.routeIds.of_map.filter _)
  simpa using List.inj_on_of_nodup_map hnodup h h' rfl

theorem Prepares.unique {r : RouteRun} {p q : Prepared} (hp : s.Prepares batch r p)
    (hq : s.Prepares batch r q) : p = q :=
  Except.ok.inj (stageOutcomes_unique hp hq)

theorem Prepares.exists_iff {r : RouteRun} {p : Prepared} (hp : s.Prepares batch r p)
    {P : Prepared → Prop} : (∃ q, s.Prepares batch r q ∧ P q) ↔ P p := by
  constructor
  · rintro ⟨q, hq, h⟩
    exact hp.unique hq ▸ h
  · exact fun h => ⟨p, hp, h⟩

/-- The row found by id is the route itself. -/
theorem deliverSingleRoute_of_mem {r : RouteRun} (hr : r ∈ s.routes) (events : List Event) :
    s.deliverSingleRoute opts r.row.id events = (s.sendCall opts r events).sendRouteEvents := by
  have hfind : s.routes.find? (fun x => decide (x.row.id = r.row.id)) = some r := by
    rw [List.find?_eq_some_iff_append]
    obtain ⟨xs, ys, hxy⟩ := List.append_of_mem hr
    refine ⟨by simp, xs, ys, hxy, ?_⟩
    intro x hx
    have hnd := s.routeIds
    rw [hxy, List.map_append, List.map_cons, List.nodup_append] at hnd
    have := hnd.2.2 x.row.id (List.mem_map.mpr ⟨x, hx, rfl⟩) r.row.id (by simp)
    simpa using this
  simp [deliverSingleRoute, hfind]

/-- The route is sent its batch and the send is reported as a success. -/
def Delivers (s : RunStream) (opts : StreamRunOptions) (batch : List Event) (r : RouteRun) :
    Prop :=
  ∃ p, s.Prepares batch r p ∧ deliveryAllowedForDecision p.decision = true ∧ p.events ≠ [] ∧
    (s.sendCall opts r p.events).sendRouteEvents.1.success = true

/-- The route is policy-allowed and ends rate limited, or failed and not absorbed. -/
def Blocks (s : RunStream) (opts : StreamRunOptions) (batch : List Event) (r : RouteRun) :
    Prop :=
  ∃ p, s.Prepares batch r p ∧ deliveryAllowedForDecision p.decision = true ∧ p.events ≠ [] ∧
    ((s.sendCall opts r p.events).sendRouteEvents.1.rateLimited = true ∨
      (r.row.destination.enabled = true ∧
        (s.sendCall opts r p.events).sendRouteEvents.1.success = false ∧
        (s.sendCall opts r p.events).sendRouteEvents.1.failureAbsorbed = false))

/-- The route is disabled, withheld by policy, without events or without a destination to
send to. -/
def Neutral (s : RunStream) (batch : List Event) (r : RouteRun) : Prop :=
  r.row.enabled = false ∨ r.row.destination.enabled = false ∨
    ∃ p, s.Prepares batch r p ∧ (deliveryAllowedForDecision p.decision = false ∨ p.events = [])

theorem resultOfOutcome_spec (routeId : ℤ) (n : ℕ) {o : RouteSendOutcome}
    (ho : o.success = true → o.rateLimited = false ∧ o.destinationDisabled = false) :
    ((resultOfOutcome routeId n o).delivers = true ↔ o.success = true) ∧
      ((resultOfOutcome routeId n o).blocks = true ↔ o.rateLimited = true ∨
        (o.destinationDisabled = false ∧ o.success = false ∧ o.failureAbsorbed = false)) := by
  unfold resultOfOutcome RouteDeliveryResult.delivers RouteDeliveryResult.blocks
  cases hrl : o.rateLimited with
  | true =>
    have : o.success = false := by
      by_contra h
      simp [ho (by simpa using h)] at hrl
    simp [this]
  | false =>
    cases hdd : o.destinationDisabled with
    | true =>
      have : o.success = false := by
        by_contra h
        simp [ho (by simpa using h)] at hdd
      simp [this]
    | false => cases o.success <;> simp

/-- What the delivery result of a prepared route says to the gate. -/
theorem processRoutePipeline_spec {r : RouteRun} {p : Prepared} (h : s.Prepares batch r p) :
    ((s.processRoutePipeline opts r p).1.deliveryResult.delivers = true ↔
        s.Delivers opts batch r) ∧
      ((s.processRoutePipeline opts r p).1.deliveryResult.blocks = true ↔
        s.Blocks opts batch r) := by
  obtain ⟨hr, hen⟩ := h.mem
  rw [Delivers, h.exists_iff, Blocks, h.exists_iff]
  cases hall : deliveryAllowedForDecision p.decision with
  | false =>
    simp [processRoutePipeline, routeDeliveryStage, hen, hall, RouteDeliveryResult.delivers,
      RouteDeliveryResult.blocks]
  | true =>
    by_cases hev : p.events = []
    · simp [processRoutePipeline, routeDeliveryStage, hen, hall, hev,
        RouteDeliveryResult.delivers, RouteDeliveryResult.blocks]
    · have hres : (s.processRoutePipeline opts r p).1.deliveryResult =
          resultOfOutcome r.row.id p.events.length
            (s.sendCall opts r p.events).sendRouteEvents.1 := by
        simp [processRoutePipeline, routeDeliveryStage, hen, hall, hev,
          deliverSingleRoute_of_mem hr]
      obtain ⟨hdis, hlim, hadm⟩ := (s.sendCall opts r p.events).sendRouteEvents_refusals
      have hroute : (s.sendCall opts r p.events).route = r.row := rfl
      obtain ⟨hd, hb⟩ := resultOfOutcome_spec r.row.id p.events.length
        (o := (s.sendCall opts r p.events).sendRouteEvents.1)
        (fun h => by
          obtain ⟨he, hl⟩ := hadm h
          simp [hdis, hlim, he, hl])
      rw [hres, hd, hb, hdis, hroute]
      simp [hev]

/-- A route that takes no part neither delivers nor blocks. -/
theorem Neutral.spec {r : RouteRun} (h : s.Neutral batch r) :
    ¬ s.Delivers opts batch r ∧ ¬ s.Blocks opts batch r := by
  rcases h with hen | hdest | ⟨p, hp, hcase⟩
  · refine ⟨?_, ?_⟩ <;>
    · rintro ⟨p, hp, -⟩
      simp [hp.mem.2] at hen
  · have hroute (events : List Event) : (s.sendCall opts r events).route = r.row := rfl
    refine ⟨?_, ?_⟩
    · rintro ⟨p, -, -, -, hs⟩
      have := ((s.sendCall opts r p.events).sendRouteEvents_refusals.2.2 hs).1
      simp [hroute, hdest] at this
    · rintro ⟨p, -, -, -, hl | ⟨he, -⟩⟩
      · rw [(s.sendCall opts r p.events).sendRouteEvents_refusals.2.1, hroute, hdest] at hl
        simp at hl
      · simp [hdest] at he
  · refine ⟨?_, ?_⟩ <;>
    · rintro ⟨q, hq, hall, hev, -⟩
      obtain rfl := hp.unique hq
      rcases hcase with h | h
      · simp [h] at hall
      · exact hev h

theorem processRoutes_error_iff (s : RunStream) (opts : StreamRunOptions) (batch : List Event)
    (rs : List RouteRun) (caches : ResultCaches) (acc : RoutePipelineResult) :
    (s.processRoutes opts batch rs caches acc).2 = none ↔
      ∀ x ∈ s.stageOutcomes batch rs caches, ∃ p, x.2 = .ok p := by
  induction rs generalizing caches acc with
  | nil => simp [processRoutes, stageOutcomes]
  | cons r rs ih =>
    unfold processRoutes stageOutcomes
    cases hen : r.row.enabled with
    | false => simpa using ih caches _
    | true =>
      simp only [Bool.not_true, Bool.false_eq_true, ↓reduceIte]
      cases hst : s.stages batch r caches with
      | mk out caches' =>
        cases out with
        | error e => simp
        | ok p => simpa using ih caches' _

@[simp] theorem addResult_stageResults (acc : RoutePipelineResult)
    (out : RouteStageResult × List Effect) :
    (addResult acc out).stageResults = acc.stageResults ++ [out.1] := by
  simp only [addResult]
  split_ifs <;> rfl

/-- The stage results are those of the routes whose stages returned. -/
theorem mem_processRoutes (rs : List RouteRun) (caches : ResultCaches)
    (acc : RoutePipelineResult) (x : RouteStageResult) :
    x ∈ (s.processRoutes opts batch rs caches acc).1.stageResults ↔ x ∈ acc.stageResults ∨
      ∃ r p, (r, .ok p) ∈ s.stageOutcomes batch rs caches ∧
        x = (s.processRoutePipeline opts r p).1 := by
  induction rs generalizing caches acc with
  | nil => simp [processRoutes, stageOutcomes]
  | cons r rs ih =>
    unfold processRoutes stageOutcomes
    cases hen : r.row.enabled with
    | false => simpa using ih caches _
    | true =>
      simp only [Bool.not_true, Bool.false_eq_true, ↓reduceIte]
      cases hst : s.stages batch r caches with
      | mk out caches' =>
        cases out with
        | error e => simp
        | ok p =>
          simp only [ih, addResult_stageResults, List.mem_append, List.mem_cons, List.not_mem_nil,
            or_false, Prod.mk.injEq, Except.ok.injEq]
          constructor
          · rintro ((hx | rfl) | ⟨q, d, hq, rfl⟩)
            · exact .inl hx
            · exact .inr ⟨r, p, .inl ⟨rfl, rfl⟩, rfl⟩
            · exact .inr ⟨q, d, .inr hq, rfl⟩
          · rintro (hx | ⟨q, d, ⟨rfl, rfl⟩ | hq, rfl⟩)
            · exact .inl (.inl hx)
            · exact .inl (.inr rfl)
            · exact .inr ⟨q, d, hq, rfl⟩

/-- The gate over the whole pipeline. -/
theorem processRoutes_gate (reference : List Event) (href : reference ≠ []) :
    (routeDeliveryFanOutOutcome (s.processRoutes opts batch s.routes {} {}).1
        reference).successfulEvents ≠ [] ↔
      (∃ r ∈ s.routes, s.Delivers opts batch r) ∧ ∀ r ∈ s.routes, ¬ s.Blocks opts batch r := by
  rw [successfulEvents_ne_nil_iff _ _ href]
  simp only [mem_processRoutes s.routes {} {}, List.not_mem_nil, false_or]
  constructor
  · rintro ⟨⟨x, ⟨r, p, hp, rfl⟩, hd⟩, hb⟩
    refine ⟨⟨r, (Prepares.mem hp).1, (processRoutePipeline_spec hp).1.mp hd⟩, ?_⟩
    intro q hq hblock
    obtain ⟨p', hp', -⟩ := id hblock
    have := hb _ ⟨q, p', hp', rfl⟩
    rw [(processRoutePipeline_spec hp').2.mpr hblock] at this
    simp at this
  · rintro ⟨⟨r, hr, hd⟩, hb⟩
    obtain ⟨p, hp, -⟩ := id hd
    refine ⟨⟨_, ⟨r, p, hp, rfl⟩, (processRoutePipeline_spec hp).1.mpr hd⟩, ?_⟩
    rintro x ⟨q, p', hp', rfl⟩
    rw [← Bool.not_eq_true, (processRoutePipeline_spec hp').2]
    exact hb q (Prepares.mem hp').1

/-- Enabled routes that share a key of a result agree on the order the key forgets. -/
def CachesAgree (s : RunStream) (batch : List Event) : Prop :=
  ∀ x ∈ s.routes, ∀ y ∈ s.routes, x.row.enabled = true → y.row.enabled = true →
    OrderedAlike (s.sharedBatch batch) x.context y.context

/-- Where the routes agree, each is served what its stages give with nothing cached. -/
theorem stages_traced {past : List RouteRun} {r : RouteRun} {caches : ResultCaches}
    (h : CachesTraced s.engines (s.sharedBatch batch) (past.map (·.context)) caches)
    (halike : ∀ q ∈ past, OrderedAlike (s.sharedBatch batch) q.context r.context) :
    (s.stages batch r caches).1 = (s.stages batch r {}).1 ∧
      ∀ p, (s.stages batch r caches).1 = .ok p →
        CachesTraced s.engines (s.sharedBatch batch) ((past ++ [r]).map (·.context))
          (s.stages batch r caches).2 := by
  obtain ⟨hown, htraced⟩ := routeStages_traced (r := r.context) h fun q hq => by
    obtain ⟨x, hx, rfl⟩ := List.mem_map.mp hq
    exact halike x hx
  refine ⟨?_, fun p hp => ?_⟩
  · simp only [stages, hown]
  · rw [List.map_append]
    cases hout : (routeStages s.engines (s.sharedBatch batch) r.context caches).1 with
    | error e => simp [stages, hout, Except.mapError, Except.bind] at hp
    | ok out => exact htraced out hout

theorem stageOutcomes_own (past : List RouteRun) {rs : List RouteRun} {caches : ResultCaches}
    (h : CachesTraced s.engines (s.sharedBatch batch) (past.map (·.context)) caches)
    (halike : ∀ y ∈ rs, y.row.enabled = true → ∀ x ∈ past ++ rs, x.row.enabled = true →
      OrderedAlike (s.sharedBatch batch) x.context y.context)
    (hpast : ∀ x ∈ past, x.row.enabled = true) :
    ((∀ x ∈ s.stageOutcomes batch rs caches, ∃ p, x.2 = .ok p) ↔
        ∀ r ∈ rs, r.row.enabled = true → ∃ p, (s.stages batch r {}).1 = .ok p) ∧
      ((∀ x ∈ s.stageOutcomes batch rs caches, ∃ p, x.2 = .ok p) → ∀ r p,
        (r, .ok p) ∈ s.stageOutcomes batch rs caches ↔
          r ∈ rs ∧ r.row.enabled = true ∧ (s.stages batch r {}).1 = .ok p) := by
  induction rs generalizing past caches with
  | nil => simp [stageOutcomes]
  | cons r rs ih =>
    cases hen : r.row.enabled with
    | false =>
      obtain ⟨hreturn, hmem⟩ := ih past h (fun y hy hye x hx hxe => halike y (by simp [hy]) hye x (by
        rcases List.mem_append.mp hx with hx | hx <;> simp [hx]) hxe) hpast
      simp only [stageOutcomes, hen, Bool.not_false, ↓reduceIte]
      refine ⟨by rw [hreturn]; simp [hen], fun hall q p => ?_⟩
      rw [hmem hall, List.mem_cons]
      refine and_congr_left fun hq => ⟨.inr, fun hor => hor.resolve_left ?_⟩
      rintro rfl
      simp [hen] at hq
    | true =>
      obtain ⟨hown, htraced⟩ := stages_traced (r := r) h fun q hq =>
        halike r List.mem_cons_self hen q (by simp [hq]) (hpast q hq)
      simp only [stageOutcomes, hen, Bool.not_true, Bool.false_eq_true, ↓reduceIte]
      cases hst : s.stages batch r caches with
      | mk out caches' =>
        rw [hst] at hown htraced
        cases out with
        | error e => simp [hen, ← hown]
        | ok p =>
          obtain ⟨hreturn, hmem⟩ := ih (past ++ [r]) (htraced p rfl) (fun y hy hye x hx hxe =>
            halike y (by simp [hy]) hye x (by simpa using hx) hxe) (by
              intro x hx
              rcases List.mem_append.mp hx with hx | hx
              · exact hpast x hx
              · exact List.mem_singleton.mp hx ▸ hen)
          refine ⟨?_, fun hall q d => ?_⟩
          · rw [List.forall_mem_cons, List.forall_mem_cons]
            exact and_congr (by simp [hen, ← hown]) hreturn
          · have hrest := hmem fun x hx => hall x (List.mem_cons_of_mem _ hx)
            simp only [List.mem_cons, Prod.mk.injEq, Except.ok.injEq, hrest]
            constructor
            · rintro (⟨rfl, rfl⟩ | ⟨hq, hqe, hqp⟩)
              · exact ⟨.inl rfl, hen, hown.symm⟩
              · exact ⟨.inr hq, hqe, hqp⟩
            · rintro ⟨rfl | hq, hqe, hqp⟩
              · exact .inl ⟨rfl, (Except.ok.inj (hown.trans hqp)).symm⟩
              · exact .inr ⟨hq, hqe, hqp⟩

/-- Where the routes agree, what they prepare does not depend on their order. -/
theorem CachesAgree.own (h : s.CachesAgree batch) :
    (s.StagesReturn batch ↔
        ∀ r ∈ s.routes, r.row.enabled = true → ∃ p, (s.stages batch r {}).1 = .ok p) ∧
      (s.StagesReturn batch → ∀ r p, s.Prepares batch r p ↔
        r ∈ s.routes ∧ r.row.enabled = true ∧ (s.stages batch r {}).1 = .ok p) :=
  stageOutcomes_own [] cachesTraced_nil
    (fun y hy hye x hx hxe => h x (by simpa using hx) y hy hxe hye) (by simp)

end RunStream

namespace Pending

@[simp] theorem log_checkpoint (p : Pending) (payload : LogPayload) :
    (p.log payload).checkpoint = p.checkpoint := by
  unfold log
  split_ifs <;> rfl

@[simp] theorem logs_checkpoint (p : Pending) (payloads : List LogPayload) :
    (p.logs payloads).checkpoint = p.checkpoint := by
  induction payloads generalizing p with
  | nil => rfl
  | cons x xs ih => simpa [logs] using ih (p.log x)

@[simp] theorem apply_checkpoint (streamId : ℤ) (p : Pending) (e : Effect) :
    (p.apply streamId e).checkpoint = p.checkpoint := by
  cases e with
  | log payload => exact log_checkpoint p payload
  | disableRoute id =>
    simp only [apply]
    split_ifs <;> rfl
  | recordRegistry record =>
    simp only [apply]
    split
    · rfl
    · simp
  | _ => rfl

@[simp] theorem applyAll_checkpoint (streamId : ℤ) (p : Pending) (es : List Effect) :
    (p.applyAll streamId es).checkpoint = p.checkpoint := by
  induction es generalizing p with
  | nil => rfl
  | cons e es ih => simpa [applyAll] using ih (p.apply streamId e)

end Pending

namespace RunInput

variable {r : RunInput} {rows : List DeliveryLogRow}

/-- The batch the run delivers. -/
def batch (r : RunInput) (rows : List DeliveryLogRow) : List Event :=
  match r.fetched with
  | .ok fetched => (r.collect rows fetched).1
  | .error _ => []

/-- The run got through its delivery branch without an exception. -/
def Completed (r : RunInput) (rows : List DeliveryLogRow) : Prop :=
  r.lockAcquired = true ∧ (r.body rows).2 = .ok .completed

/-- Some route delivered the batch and no route holds the checkpoint back. -/
def GateOpen (r : RunInput) (batch : List Event) : Prop :=
  (∃ x ∈ r.stream.routes, r.stream.Delivers r.runOpts batch x) ∧
    ∀ x ∈ r.stream.routes, ¬ r.stream.Blocks r.runOpts batch x

theorem checkpointEvents_ne_nil (pipeline : RoutePipelineResult) {batch : List Event}
    (h : batch ≠ []) : checkpointEvents pipeline batch ≠ [] := by
  unfold checkpointEvents
  split_ifs with he
  · exact h
  · simpa using he

/-- Nothing after the fan-out stops the run: a raising checkpoint update only matters when
one is made. -/
def TailReturns (r : RunInput) (staging : Prop) : Prop :=
  (staging → r.checkpointError = none) ∧ r.finishError = none

theorem finishDelivery_spec {batch : List Event} {pipeline : RoutePipelineResult}
    {st : RunState} (hst : st.pending.checkpoint = none) {staging : Prop}
    (hs : staging ↔ (routeDeliveryFanOutOutcome pipeline
      (checkpointEvents pipeline batch)).successfulEvents ≠ [] ∧
        r.runOpts.persistCheckpoint = true) :
    ((r.finishDelivery batch pipeline st).2 = .ok .completed ↔ r.TailReturns staging) ∧
      ((r.finishDelivery batch pipeline st).2 = .ok .completed →
        ((r.finishDelivery batch pipeline st).1.pending.checkpoint.isSome = true ↔ staging)) := by
  have hb : (!(routeDeliveryFanOutOutcome pipeline
      (checkpointEvents pipeline batch)).successfulEvents.isEmpty &&
        r.runOpts.persistCheckpoint) = true ↔ staging := by
    simp [hs]
  simp only [finishDelivery, TailReturns]
  generalize (!(routeDeliveryFanOutOutcome pipeline
      (checkpointEvents pipeline batch)).successfulEvents.isEmpty &&
        r.runOpts.persistCheckpoint) = b at hb ⊢
  cases b with
  | true =>
    have hstage : staging := hb.mp rfl
    cases hc : r.checkpointError <;> cases hf : r.finishError <;>
      simp [hstage, RunState.log]
  | false =>
    have hstage : ¬ staging := fun h => by simpa using hb.mpr h
    cases hf : r.finishError <;> simp [hstage, hst, RunState.log]

theorem deliverBatch_outcome {batch : List Event} {st : RunState} {o : RunOutcome}
    (h : (r.deliverBatch batch st).2 = .ok o) : o = .completed := by
  unfold deliverBatch finishDelivery at h
  split at h
  · simp at h
  · simp only at h
    split at h
    · simp at h
    · split at h
      · simp at h
      · split at h
        · simp at h
        · split at h
          · simp at h
          · simpa using h.symm

theorem deliverBatch_spec {batch : List Event} (hbatch : batch ≠ []) (st : RunState)
    (hst : st.pending.checkpoint = none) :
    ((r.deliverBatch batch st).2 = .ok .completed ↔
        r.sharedPhaseError = none ∧ r.stream.StagesReturn batch ∧
          r.fanOutError = none ∧
            r.TailReturns (r.GateOpen batch ∧ r.runOpts.persistCheckpoint = true)) ∧
      ((r.deliverBatch batch st).2 = .ok .completed →
        ((r.deliverBatch batch st).1.pending.checkpoint.isSome = true ↔
          r.GateOpen batch ∧ r.runOpts.persistCheckpoint = true)) := by
  unfold deliverBatch
  cases r.sharedPhaseError with
  | some e => simp
  | none =>
    have herr := r.stream.processRoutes_error_iff r.runOpts batch r.stream.routes {} {}
    cases hp : (r.stream.processRoutes r.runOpts batch r.stream.routes {} {}).2 with
    | some e =>
      rw [hp] at herr
      have hno : ¬ r.stream.StagesReturn batch := fun h => by
        simpa using herr.mpr h
      simp [hp, hno]
    | none =>
      have hret : r.stream.StagesReturn batch := herr.mp hp
      cases r.fanOutError with
      | some e => simp [hp]
      | none =>
        simp only [hp, hret, true_and]
        refine finishDelivery_spec ?_ ?_
        · simpa [RunState.perform] using hst
        · rw [RunStream.processRoutes_gate _ (checkpointEvents_ne_nil _ hbatch)]
          rfl

/-- The inputs on which the delivery branch is reached and gets through. -/
structure Reaches (r : RunInput) (rows : List DeliveryLogRow) : Prop where
  entry : r.entryError = none
  source : r.sourceAllows = true
  fetched : ∃ fetched, r.fetched = .ok fetched
  batch_ne : r.batch rows ≠ []
  delivers : r.runOpts.dryRun = false
  shared : r.sharedPhaseError = none
  stages : r.stream.StagesReturn (r.batch rows)
  fanOut : r.fanOutError = none
  tail : r.TailReturns (r.GateOpen (r.batch rows) ∧ r.runOpts.persistCheckpoint = true)

theorem body_spec (r : RunInput) (rows : List DeliveryLogRow) :
    ((r.body rows).2 = .ok .completed ↔ r.Reaches rows) ∧
      ((r.body rows).2 = .ok .completed → ((r.body rows).1.pending.checkpoint.isSome = true ↔
        r.GateOpen (r.batch rows) ∧ r.runOpts.persistCheckpoint = true)) ∧
      (∀ o, (r.body rows).2 = .ok o → o ≠ .completed →
        (r.body rows).1.pending.checkpoint = none) := by
  have hno {P : Prop} (h : P) (hr : r.Reaches rows → ¬ P) : ¬ r.Reaches rows := fun h' => hr h' h
  unfold body
  cases hent : r.entryError with
  | some e => simp [hno hent fun h => by simp [h.entry]]
  | none =>
    cases hsrc : r.sourceAllows with
    | false =>
      simp [hno hsrc fun h => by simp [h.source], RunState.perform]
    | true =>
      cases hf : r.fetched with
      | error e =>
        simp [hno hf fun h => by obtain ⟨f, hf'⟩ := h.fetched; simp [hf']]
      | ok fetched =>
        have hbatch : r.batch rows = (r.collect rows fetched).1 := by simp [batch, hf]
        simp only [Bool.not_true, Bool.false_eq_true, ↓reduceIte, ← hbatch]
        by_cases hb : r.batch rows = []
        · simp [hb, hno hb fun h => h.batch_ne, RunState.log, collectedState, RunState.perform]
        · cases hdry : r.runOpts.dryRun with
          | true =>
            simp [hb, hno hdry fun h => by simp [h.delivers], RunState.log, collectedState,
              RunState.perform]
          | false =>
            simp only [List.isEmpty_iff, hb, ↓reduceIte, Bool.false_eq_true]
            obtain ⟨hiff, hcp⟩ := deliverBatch_spec (r := r) hb
              (r.collectedState fetched (r.collect rows fetched).2)
              (by simp [collectedState, RunState.perform])
            refine ⟨hiff.trans ⟨?_, ?_⟩, hcp, ?_⟩
            · rintro ⟨h1, h2, h3, h4⟩
              exact ⟨hent, hsrc, ⟨fetched, hf⟩, hb, hdry, h1, h2, h3, h4⟩
            · intro h
              exact ⟨h.shared, h.stages, h.fanOut, h.tail⟩
            · intro o ho hne
              exact absurd (deliverBatch_outcome ho) hne

/-- A run that has a batch to deliver and a route whose stages raise fails and commits
nothing. -/
theorem run_error_of_stages (hlock : r.lockAcquired = true) (hsrc : r.sourceAllows = true)
    (hb : r.batch rows ≠ []) (hdry : r.runOpts.dryRun = false)
    (hno : ¬ r.stream.StagesReturn (r.batch rows)) :
    ∃ e, (run r rows).outcome = .error e ∧ (run r rows).flushed = none := by
  have hbody : ∃ st e, r.body rows = (st, .error e) := by
    unfold body
    cases r.entryError with
    | some e => exact ⟨_, e, rfl⟩
    | none =>
      cases hf : r.fetched with
      | error e => simp [batch, hf] at hb
      | ok fetched =>
        have hbatch : r.batch rows = (r.collect rows fetched).1 := by simp [batch, hf]
        simp only [hsrc, hdry, ← hbatch, List.isEmpty_iff, hb, Bool.not_true, Bool.false_eq_true,
          ↓reduceIte]
        unfold deliverBatch
        cases r.sharedPhaseError with
        | some e => exact ⟨_, e, rfl⟩
        | none =>
          cases hp : (r.stream.processRoutes r.runOpts (r.batch rows) r.stream.routes {} {}).2 with
          | none => exact absurd ((r.stream.processRoutes_error_iff ..).mp hp) hno
          | some e =>
            simp only [hp]
            exact ⟨_, e, rfl⟩
  obtain ⟨st, e, hbody⟩ := hbody
  exact ⟨e, by simp [run, hlock, hbody], by simp [run, hlock, hbody]⟩

/-- The same run with its routes in another order. -/
def permuteRoutes (r : RunInput) (routes : List RouteRun) (h : r.stream.routes.Perm routes) :
    RunInput :=
  { r with stream := { r.stream with
      routes
      routeIds := (h.map _).nodup_iff.mp r.stream.routeIds } }

section Permute

variable (r : RunInput) {routes : List RouteRun} (h : r.stream.routes.Perm routes)
  {batch : List Event}

theorem cachesAgree_permuteRoutes (hagree : r.stream.CachesAgree batch) :
    (r.permuteRoutes routes h).stream.CachesAgree batch :=
  fun x hx y hy => hagree x (h.mem_iff.mpr hx) y (h.mem_iff.mpr hy)

theorem stagesReturn_permuteRoutes (hagree : r.stream.CachesAgree batch) :
    (r.permuteRoutes routes h).stream.StagesReturn batch ↔ r.stream.StagesReturn batch := by
  rw [(r.cachesAgree_permuteRoutes h hagree).own.1, hagree.own.1]
  exact forall_congr' fun x => imp_congr h.mem_iff.symm Iff.rfl

theorem prepares_permuteRoutes (hagree : r.stream.CachesAgree batch)
    (hreturn : r.stream.StagesReturn batch) (x : RouteRun) (p : Prepared) :
    (r.permuteRoutes routes h).stream.Prepares batch x p ↔ r.stream.Prepares batch x p := by
  rw [(r.cachesAgree_permuteRoutes h hagree).own.2
    ((r.stagesReturn_permuteRoutes h hagree).mpr hreturn), hagree.own.2 hreturn]
  exact and_congr h.mem_iff.symm Iff.rfl

theorem gateOpen_permuteRoutes (hagree : r.stream.CachesAgree batch)
    (hreturn : r.stream.StagesReturn batch) :
    (r.permuteRoutes routes h).GateOpen batch ↔ r.GateOpen batch := by
  have hprep := r.prepares_permuteRoutes h hagree hreturn
  have hdelivers (x : RouteRun) : (r.permuteRoutes routes h).stream.Delivers r.runOpts batch x ↔
      r.stream.Delivers r.runOpts batch x :=
    exists_congr fun p => and_congr (hprep x p) Iff.rfl
  have hblocks (x : RouteRun) : (r.permuteRoutes routes h).stream.Blocks r.runOpts batch x ↔
      r.stream.Blocks r.runOpts batch x :=
    exists_congr fun p => and_congr (hprep x p) Iff.rfl
  unfold GateOpen
  refine and_congr (exists_congr fun x => ?_) (forall_congr' fun x => ?_)
  · exact and_congr h.mem_iff.symm (hdelivers x)
  · exact imp_congr h.mem_iff.symm (not_congr (hblocks x))

theorem reaches_permuteRoutes (rows : List DeliveryLogRow)
    (hagree : r.stream.CachesAgree (r.batch rows)) :
    (r.permuteRoutes routes h).Reaches rows ↔ r.Reaches rows := by
  have hreturn := r.stagesReturn_permuteRoutes h hagree
  constructor
  · intro hr
    have hgate := r.gateOpen_permuteRoutes h hagree (hreturn.mp hr.stages)
    exact ⟨hr.entry, hr.source, hr.fetched, hr.batch_ne, hr.delivers, hr.shared,
      hreturn.mp hr.stages, hr.fanOut, fun hs => hr.tail.1 ⟨hgate.mpr hs.1, hs.2⟩, hr.tail.2⟩
  · intro hr
    have hgate := r.gateOpen_permuteRoutes h hagree hr.stages
    exact ⟨hr.entry, hr.source, hr.fetched, hr.batch_ne, hr.delivers, hr.shared,
      hreturn.mpr hr.stages, hr.fanOut, fun hs => hr.tail.1 ⟨hgate.mp hs.1, hs.2⟩, hr.tail.2⟩

end Permute

end RunInput

open RunInput

theorem run_staged_iff (r : RunInput) (rows : List DeliveryLogRow) :
    (run r rows).staged.checkpoint.isSome = true ↔
      r.Completed rows ∧ r.GateOpen (r.batch rows) ∧ r.runOpts.persistCheckpoint = true := by
  obtain ⟨-, hcp, hother⟩ := r.body_spec rows
  unfold run Completed
  cases hlock : r.lockAcquired with
  | false => simp
  | true =>
    simp only [Bool.not_true, Bool.false_eq_true, ↓reduceIte, true_and]
    cases hb : r.body rows with
    | mk st res =>
      rw [hb] at hcp hother
      cases res with
      | error e => simp
      | ok o =>
        by_cases ho : o = .completed
        · subst ho
          simpa using hcp rfl
        · have hnone : st.pending.checkpoint = none := hother o rfl ho
          simp [ho, hnone]

theorem run_staged_permuteRoutes (r : RunInput) (rows : List DeliveryLogRow)
    {routes : List RouteRun} (h : r.stream.routes.Perm routes)
    (hagree : r.stream.CachesAgree (r.batch rows)) :
    (run (r.permuteRoutes routes h) rows).staged.checkpoint.isSome =
      (run r rows).staged.checkpoint.isSome := by
  have hreaches := r.reaches_permuteRoutes h rows hagree
  rw [Bool.eq_iff_iff, run_staged_iff, run_staged_iff]
  unfold Completed
  rw [(body_spec _ rows).1, (body_spec r rows).1, hreaches]
  refine and_congr_right fun hr => and_congr_left fun _ => ?_
  exact r.gateOpen_permuteRoutes h hagree hr.2.stages

/-- A run that raises, or whose flush does, commits nothing it had buffered. -/
theorem run_flushed_of_error {r : RunInput} {rows : List DeliveryLogRow} {e : RunError}
    (he : (run r rows).outcome = .error e) : (run r rows).flushed = none := by
  unfold run at he ⊢
  cases hlock : r.lockAcquired with
  | false => simp
  | true =>
    simp only [hlock, Bool.not_true, Bool.false_eq_true, ↓reduceIte] at he ⊢
    cases hb : r.body rows with
    | mk st res =>
      rw [hb] at he
      cases res with
      | error e' => rfl
      | ok o =>
        cases hf : r.flushError with
        | none => simp [hf] at he
        | some e' => simp

/-- The checkpoint gate: staged exactly when a route delivered and none holds it back; routes
that take no part do not count; and a run that raises flushes nothing of what it had buffered. -/
structure CheckpointGate (r : RunInput) (rows : List DeliveryLogRow) : Prop where
  staged_iff : (run r rows).staged.checkpoint.isSome = true ↔ r.Completed rows ∧
    (∃ x ∈ r.stream.routes, r.stream.Delivers r.runOpts (r.batch rows) x) ∧
    ∀ x ∈ r.stream.routes, ¬ r.stream.Blocks r.runOpts (r.batch rows) x
  neutral : ∀ x ∈ r.stream.routes, r.stream.Neutral (r.batch rows) x →
    ¬ r.stream.Delivers r.runOpts (r.batch rows) x ∧
      ¬ r.stream.Blocks r.runOpts (r.batch rows) x
  raised : ∀ st e, r.body rows = (st, .error e) →
    (run r rows).staged = {} ∧ (run r rows).flushed = none
  failed : ∀ e, (run r rows).outcome = .error e → (run r rows).flushed = none

/-- The order of the routes makes no difference to the gate. -/
def OrderFree (r : RunInput) (rows : List DeliveryLogRow) : Prop :=
  ∀ (routes : List RouteRun) (h : r.stream.routes.Perm routes),
    (run (r.permuteRoutes routes h) rows).staged.checkpoint.isSome =
      (run r rows).staged.checkpoint.isSome

/-- The gate holds in every run, and it does not depend on the order of the routes where those
that share a key of a result agree on the order the key forgets. -/
theorem checkpoint_gate (r : RunInput) (rows : List DeliveryLogRow)
    (hpersist : r.runOpts.persistCheckpoint = true) :
    CheckpointGate r rows ∧ (r.stream.CachesAgree (r.batch rows) → OrderFree r rows) := by
  refine ⟨⟨?_, fun x _ hx => hx.spec, ?_, fun e he => run_flushed_of_error he⟩,
    fun hagree routes h => run_staged_permuteRoutes r rows h hagree⟩
  · rw [run_staged_iff]
    simp [GateOpen, hpersist]
  · intro st e hb
    unfold run
    rw [hb]
    split_ifs <;> exact ⟨rfl, rfl⟩

/-- Two routes with the same masks, in either order, deliver the event each to their own
destination. -/
def twoRouteRun : RunInput where
  stream :=
    { ref := ⟨1, "alerts"⟩
      routes := maskedRoutes.zipWith (fun context destination =>
        { row := { id := context.routeId, destination := { id := some destination } }
          protectionRules := context.protectionRules }) [5, 6]
      routeIds := by decide
      engines := plainEngines }
  fetched := .ok contactBatch.extractedEvents

theorem twoRouteRun_gate :
    (run twoRouteRun []).staged.checkpoint.isSome = true ∧
      (run twoRouteRun []).staged.checkpoint.isSome =
        (run (twoRouteRun.permuteRoutes twoRouteRun.stream.routes.reverse
          (List.reverse_perm _).symm) []).staged.checkpoint.isSome := by
  have hmasked : ∀ x ∈ twoRouteRun.stream.routes, x.context ∈ maskedRoutes := by decide
  have hagree : twoRouteRun.stream.CachesAgree (twoRouteRun.batch []) :=
    fun x hx y hy _ _ => maskedRoutes_orderedAlike (hmasked x hx) (hmasked y hy)
  exact ⟨by decide +kernel, ((checkpoint_gate twoRouteRun [] rfl).2 hagree _ _).symm⟩

def legacyEvent : Event :=
  [("user.email", .str "a@b.c"), ("user", .obj [("email", .str "a@b.c")])]

/-- Route 10 removes the dotted member before it masks the nested one; route 11 comes upon both
and cannot tell which is meant. -/
def swappedRun : RunInput where
  stream :=
    { ref := ⟨1, "alerts"⟩
      routes :=
        [{ row := { id := 10, destination := { id := some 5 } }
           protectionRules :=
            [piiRule "$[\"user.email\"]" .dropField, piiRule "$.user.email" .fullMask] },
         { row := { id := 11, destination := { id := some 6 } }
           protectionRules :=
            [piiRule "$.user.email" .fullMask, piiRule "$[\"user.email\"]" .dropField] }]
      routeIds := by decide
      engines := plainEngines }
  fetched := .ok [legacyEvent]

/-- Served the result of route 10, route 11 delivers; gone through first, it raises. -/
theorem swappedRun_not_orderFree :
    (run swappedRun []).staged.checkpoint.isSome = true ∧ ¬ OrderFree swappedRun [] := by
  have hstaged : (run swappedRun []).staged.checkpoint.isSome = true := by decide +kernel
  refine ⟨hstaged, fun h => ?_⟩
  have hswap := h swappedRun.stream.routes.reverse (List.reverse_perm _).symm
  rw [hstaged] at hswap
  revert hswap
  decide +kernel

end Runner
