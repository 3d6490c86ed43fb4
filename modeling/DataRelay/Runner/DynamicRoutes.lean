import DataRelay.Runner.CheckpointGate
import DataRelay.Delivery.RouteEffects

/-! What dynamic routes are handed. The payload is the output of the last route that
delivered, and the extracted batch when none did. -/
namespace Runner
open Delivery Dedup
open RouteProtection (ResultCaches plainEngines piiRule)

namespace RunStream

variable {s : RunStream} {opts : StreamRunOptions} {batch : List Event}

/-- The route is enabled, its stages return `p`, and its policy lets `p` out. -/
def Required (s : RunStream) (batch : List Event) (r : RouteRun) (p : Prepared) : Prop :=
  s.Prepares batch r p ∧ deliveryAllowedForDecision p.decision = true

/-- An effect of the route loop: a plain log row, or an effect of the send of a required
route. -/
def RouteEffect (s : RunStream) (opts : StreamRunOptions) (batch : List Event) (x : Effect) :
    Prop :=
  (∃ payload, x = .log payload ∧ PlainLog payload) ∨
    ∃ r p, s.Required batch r p ∧ x ∈ (s.sendCall opts r p.events).sendRouteEvents.2

theorem processRoutePipeline_effects {r : RouteRun} {p : Prepared} (hp : s.Prepares batch r p) :
    ∀ x ∈ (s.processRoutePipeline opts r p).2, s.RouteEffect opts batch x := by
  obtain ⟨hr, hen⟩ := hp.mem
  simp only [processRoutePipeline, routeDeliveryStage, hen, Bool.not_true, Bool.false_eq_true,
    ↓reduceIte]
  split
  · simp
  next hallow =>
    have hallow : deliveryAllowedForDecision p.decision = true := by simpa using hallow
    have hsend : ∀ x ∈ (s.deliverSingleRoute opts r.row.id p.events).2,
        s.RouteEffect opts batch x := by
      intro x hx
      rw [deliverSingleRoute_of_mem hr] at hx
      exact .inr ⟨r, p, ⟨hp, hallow⟩, hx⟩
    split
    · simp
    · simp only
      split_ifs
      · exact hsend
      · refine List.forall_mem_append.mpr ⟨hsend, List.forall_mem_singleton.mpr (.inl ?_)⟩
        exact ⟨_, rfl, plainLog_cons (by decide) _⟩

@[simp] theorem addResult_effects (acc : RoutePipelineResult)
    (out : RouteStageResult × List Effect) :
    (addResult acc out).effects = acc.effects ++ out.2 := by
  simp only [addResult]
  split_ifs <;> rfl

theorem processRoutes_effects (rs : List RouteRun) (caches : ResultCaches)
    (hrs : ∀ r p, (r, .ok p) ∈ s.stageOutcomes batch rs caches → s.Prepares batch r p)
    (acc : RoutePipelineResult) (h : ∀ x ∈ acc.effects, s.RouteEffect opts batch x) :
    ∀ x ∈ (s.processRoutes opts batch rs caches acc).1.effects, s.RouteEffect opts batch x := by
  induction rs generalizing caches acc with
  | nil => exact h
  | cons r rs ih =>
    unfold processRoutes
    unfold stageOutcomes at hrs
    split_ifs with hen
    · rw [if_pos hen] at hrs
      refine ih caches hrs _ (List.forall_mem_append.mpr ⟨h, List.forall_mem_singleton.mpr
        (.inl ?_)⟩)
      exact ⟨_, rfl, plainLog_cons (by decide) _⟩
    · rw [if_neg hen] at hrs
      split
      · exact h
      · next p caches' hp =>
        rw [hp] at hrs
        refine ih caches' (fun q d hq => hrs q d (List.mem_cons_of_mem _ hq)) _ ?_
        rw [addResult_effects]
        exact List.forall_mem_append.mpr ⟨h, processRoutePipeline_effects
          (hrs r p List.mem_cons_self)⟩

/-- If the effect is a send, a required route made it. -/
def OwnSend (s : RunStream) (opts : StreamRunOptions) (batch : List Event) (x : Effect) : Prop :=
  ∀ a, x = .send a → ∃ r p, s.Required batch r p ∧
    x ∈ (s.sendCall opts r p.events).sendRouteEvents.2

theorem ownSend_of_log (payload : LogPayload) : s.OwnSend opts batch (.log payload) :=
  fun _ h => nomatch h

theorem RouteEffect.ownSend {x : Effect} (h : s.RouteEffect opts batch x) :
    s.OwnSend opts batch x := by
  rcases h with ⟨payload, rfl, -⟩ | hx
  · exact ownSend_of_log payload
  · exact fun _ _ => hx

theorem OwnSend.base {x : Effect} (h : s.OwnSend opts batch x) : BaseEffect x := by
  cases x with
  | send a =>
    obtain ⟨r, p, -, hx⟩ := h a rfl
    exact (SendCall.sendRouteEvents_ownEffect _ _ hx).base
  | _ => trivial

/-- A delivering route becomes the reference; any other leaves it alone. -/
theorem addResult_reference (opts : StreamRunOptions) {r : RouteRun} {p : Prepared}
    (hp : s.Prepares batch r p) (acc : RoutePipelineResult) :
    (s.Delivers opts batch r →
        (addResult acc (s.processRoutePipeline opts r p)).deliveryReferenceEvents = p.events) ∧
      (¬ s.Delivers opts batch r →
        (addResult acc (s.processRoutePipeline opts r p)).deliveryReferenceEvents =
          acc.deliveryReferenceEvents) := by
  obtain ⟨hr, hen⟩ := hp.mem
  have hiff : s.Delivers opts batch r ↔
      (s.processRoutePipeline opts r p).1.deliveryResult.deliveryDisposition = .delivered ∧
        (s.processRoutePipeline opts r p).1.deliveryResult.deliverySuccess = some true ∧
        (s.processRoutePipeline opts r p).1.events ≠ [] := by
    rw [Delivers, hp.exists_iff]
    cases hall : deliveryAllowedForDecision p.decision with
    | false => simp [processRoutePipeline, routeDeliveryStage, hen, hall]
    | true =>
      by_cases hev : p.events = []
      · simp [processRoutePipeline, routeDeliveryStage, hen, hall, hev]
      · have hadm := (s.sendCall opts r p.events).sendRouteEvents_refusals
        simp only [processRoutePipeline, routeDeliveryStage, hen, hall, hev, Bool.not_true,
          Bool.false_eq_true, ↓reduceIte, List.isEmpty_iff, deliverSingleRoute_of_mem hr,
          resultOfOutcome, ne_eq, not_false_eq_true, true_and]
        cases hs : (s.sendCall opts r p.events).sendRouteEvents.1.success with
        | false => split_ifs <;> simp
        | true =>
          obtain ⟨he, hl⟩ := hadm.2.2 hs
          simp [hadm.1, hadm.2.1, he, hl, hev]
  have hevents : s.Delivers opts batch r → (s.processRoutePipeline opts r p).1.events = p.events := by
    intro hd
    have hsucc := (hiff.mp hd).2.1
    simp only [processRoutePipeline] at hsucc ⊢
    rw [if_pos hsucc]
  by_cases hd : s.Delivers opts batch r
  · refine ⟨fun _ => ?_, fun hn => absurd hd hn⟩
    simp only [addResult, if_pos (hiff.mp hd)]
    exact hevents hd
  · refine ⟨fun hd' => absurd hd' hd, fun _ => ?_⟩
    simp only [addResult, if_neg (hiff.not.mp hd)]

theorem processRoutes_reference_aux (opts : StreamRunOptions) (rs : List RouteRun)
    (caches : ResultCaches)
    (hrs : ∀ r p, (r, .ok p) ∈ s.stageOutcomes batch rs caches → s.Prepares batch r p)
    (acc : RoutePipelineResult) :
    ((∃ r p, (r, .ok p) ∈ s.stageOutcomes batch rs caches ∧ s.Delivers opts batch r) →
        ∃ r p, (r, .ok p) ∈ s.stageOutcomes batch rs caches ∧ s.Delivers opts batch r ∧
          (s.processRoutes opts batch rs caches acc).1.deliveryReferenceEvents = p.events) ∧
      ((∀ r p, (r, .ok p) ∈ s.stageOutcomes batch rs caches → ¬ s.Delivers opts batch r) →
        (s.processRoutes opts batch rs caches acc).1.deliveryReferenceEvents =
          acc.deliveryReferenceEvents) := by
  induction rs generalizing caches acc with
  | nil => simp [processRoutes, stageOutcomes]
  | cons r rs ih =>
    unfold processRoutes
    unfold stageOutcomes at hrs ⊢
    cases hen : r.row.enabled with
    | false =>
      simp only [hen, Bool.not_false, ↓reduceIte] at hrs ⊢
      exact ih caches hrs _
    | true =>
      simp only [hen, Bool.not_true, Bool.false_eq_true, ↓reduceIte] at hrs ⊢
      cases hst : s.stages batch r caches with
      | mk out caches' =>
        rw [hst] at hrs
        cases out with
        | error e => simp
        | ok p =>
          have hp := hrs r p List.mem_cons_self
          obtain ⟨hyes, hno⟩ := addResult_reference opts hp acc
          obtain ⟨ihyes, ihno⟩ := ih caches' (fun q d hq => hrs q d (List.mem_cons_of_mem _ hq))
            (addResult acc (s.processRoutePipeline opts r p))
          constructor
          · rintro ⟨q, d, hq, hqd⟩
            by_cases hrest : ∃ q d, (q, .ok d) ∈ s.stageOutcomes batch rs caches' ∧
                s.Delivers opts batch q
            · obtain ⟨q, d, hq, hqd, href⟩ := ihyes hrest
              exact ⟨q, d, List.mem_cons_of_mem _ hq, hqd, href⟩
            · have hrd : s.Delivers opts batch r := by
                rcases List.mem_cons.mp hq with heq | hq
                · injection heq with hqr
                  exact hqr ▸ hqd
                · exact absurd ⟨q, d, hq, hqd⟩ hrest
              refine ⟨r, p, List.mem_cons_self, hrd, ?_⟩
              rw [ihno fun q d hq hqd => hrest ⟨q, d, hq, hqd⟩, hyes hrd]
          · intro hall
            rw [ihno fun q d hq => hall q d (List.mem_cons_of_mem _ hq),
              hno (hall r p List.mem_cons_self)]

/-- The reference is the output of a delivering route, if there is one. -/
theorem processRoutes_reference (s : RunStream) (opts : StreamRunOptions) (batch : List Event) :
    ((∃ r ∈ s.routes, s.Delivers opts batch r) → ∃ r p, s.Prepares batch r p ∧
        s.Delivers opts batch r ∧
          (s.processRoutes opts batch s.routes {} {}).1.deliveryReferenceEvents = p.events) ∧
      ((∀ r ∈ s.routes, ¬ s.Delivers opts batch r) →
        (s.processRoutes opts batch s.routes {} {}).1.deliveryReferenceEvents = []) := by
  have hmem : ∀ r p, (r, .ok p) ∈ s.stageOutcomes batch s.routes {} → s.Prepares batch r p :=
    fun _ _ h => h
  obtain ⟨hyes, hno⟩ := processRoutes_reference_aux opts s.routes {} hmem {}
  refine ⟨?_, fun hall => hno fun r p hp => hall r (Prepares.mem hp).1⟩
  rintro ⟨r, -, hd⟩
  obtain ⟨p, hp, -⟩ := id hd
  exact hyes ⟨r, p, hp, hd⟩

end RunStream

namespace RunInput

variable {r : RunInput} {rows : List DeliveryLogRow}

/-- Nothing keeps the dynamic route from its send. -/
def DynamicOpen (r : RunInput) (m : DynamicRouteMatch) : Prop :=
  m.destinationId ∉ r.baseDestinationIds ∧ m.destinationEnabled = true ∧ m.limiterAllows = true

theorem attempts_recordDynamicReplay (r : RunInput) (m : DynamicRouteMatch) (events : List Event)
    (error : SendError) : attempts (r.recordDynamicReplay m events error) = [] := by
  unfold recordDynamicReplay
  split
  · rfl
  split
  · rfl
  split
  · rfl
  split
  · rfl
  · generalize recordStreamReplayEvent _ _ _ _ _ _ _ _ _ _ _ = row
    cases row <;> rfl

theorem attempts_deliverDynamicRoute (r : RunInput) (events : List Event)
    (m : DynamicRouteMatch) (a : SendAttempt) :
    a ∈ attempts (r.deliverDynamicRoute events m) ↔ r.DynamicOpen m ∧
      a = ⟨.dynamicRoute m.dynamicRouteId, some m.destinationId, events,
        m.result.error.isNone⟩ := by
  unfold deliverDynamicRoute DynamicOpen
  by_cases hbase : m.destinationId ∈ r.baseDestinationIds
  · simp [hbase, dynamicLog]
  · cases hen : m.destinationEnabled with
    | false => simp [hbase, dynamicLog]
    | true =>
      cases hlim : m.limiterAllows with
      | false => simp [hbase, dynamicLog]
      | true =>
        cases m.result.error with
        | none => simp [hbase, dynamicLog]
        | some e => simp [hbase, dynamicLog, attempts_recordDynamicReplay]

theorem attempts_deliverDynamicRoutes (r : RunInput) {events : List Event} (h : events ≠ [])
    (a : SendAttempt) :
    a ∈ attempts (r.deliverDynamicRoutes events) ↔
      ∃ m ∈ (r.dynamicRoutes events).getD [], r.DynamicOpen m ∧
        a = ⟨.dynamicRoute m.dynamicRouteId, some m.destinationId, events,
          m.result.error.isNone⟩ := by
  have hflat (ms : List DynamicRouteMatch) :
      attempts (ms.flatMap (r.deliverDynamicRoute events)) =
        ms.flatMap fun m => attempts (r.deliverDynamicRoute events m) := by
    induction ms with
    | nil => rfl
    | cons m ms ih => simp [ih]
  simp only [deliverDynamicRoutes, List.isEmpty_iff, h, ↓reduceIte, hflat, List.mem_flatMap,
    attempts_deliverDynamicRoute]

/-- The dynamic routes are evaluated and served. -/
structure ReachesFanOut (r : RunInput) (rows : List DeliveryLogRow) : Prop where
  lock : r.lockAcquired = true
  entry : r.entryError = none
  source : r.sourceAllows = true
  fetched : ∃ fetched, r.fetched = .ok fetched
  batch_ne : r.batch rows ≠ []
  delivers : r.runOpts.dryRun = false
  shared : r.sharedPhaseError = none
  stages : r.stream.StagesReturn (r.batch rows)

theorem finishDelivery_effects (batch : List Event) (pipeline : RoutePipelineResult)
    (st : RunState) : (r.finishDelivery batch pipeline st).1.effects = st.effects := by
  unfold finishDelivery
  simp only
  split
  · rfl
  · split <;> rfl

theorem collectLogs_ownSend (r : RunInput) (batch fetched : List Event)
    (queue : Option StreamDedupQueue) :
    ∀ x ∈ r.collectLogs fetched queue, r.stream.OwnSend r.runOpts batch x := by
  cases queue <;> simp [collectLogs, RunStream.ownSend_of_log]

/-- The delivery branch adds the sends of the routes, then those of the dynamic routes. -/
theorem deliverBatch_effects (batch : List Event) (st : RunState)
    (hst : ∀ x ∈ st.effects, r.stream.OwnSend r.runOpts batch x) :
    ∃ es, (∀ x ∈ es, r.stream.OwnSend r.runOpts batch x) ∧
      (r.deliverBatch batch st).1.effects = es ++
        if r.sharedPhaseError = none ∧ (r.stream.processRoutes r.runOpts batch
            r.stream.routes {} {}).2 = none then
          r.deliverDynamicRoutes (deliveryEvents
            (r.stream.processRoutes r.runOpts batch r.stream.routes {} {}).1 batch)
        else [] := by
  have hroutes : ∀ x ∈ (r.stream.processRoutes r.runOpts batch r.stream.routes {} {}).1.effects,
      r.stream.OwnSend r.runOpts batch x := fun x hx =>
    (RunStream.processRoutes_effects _ {} (fun _ _ h => h) {} (by simp) x hx).ownSend
  unfold deliverBatch
  cases r.sharedPhaseError with
  | some e => exact ⟨st.effects, hst, by simp⟩
  | none =>
    generalize r.stream.processRoutes r.runOpts batch r.stream.routes {} {} = out at hroutes ⊢
    obtain ⟨pipeline, err⟩ := out
    have hbase := List.forall_mem_append.mpr ⟨hst, hroutes⟩
    cases err with
    | some e => exact ⟨st.effects ++ pipeline.effects, hbase, by simp [RunState.perform]⟩
    | none =>
      refine ⟨st.effects ++ pipeline.effects ++ [r.routeProcessingLog pipeline],
        List.forall_mem_append.mpr ⟨hbase, by simp [routeProcessingLog, RunStream.ownSend_of_log]⟩, ?_⟩
      cases r.fanOutError with
      | some e => simp [RunState.perform]
      | none => simp [finishDelivery_effects, RunState.perform]

/-- The sends of a run are those of required routes, followed by those of the dynamic routes when
these are reached. -/
theorem run_effects (r : RunInput) (rows : List DeliveryLogRow) :
    ∃ es, (∀ x ∈ es, r.stream.OwnSend r.runOpts (r.batch rows) x) ∧
      (r.ReachesFanOut rows → (run r rows).effects = es ++ r.deliverDynamicRoutes
        (deliveryEvents (r.stream.processRoutes r.runOpts (r.batch rows) r.stream.routes {} {}).1
          (r.batch rows))) ∧
      (¬ r.ReachesFanOut rows → (run r rows).effects = es) := by
  have hrun (h : r.lockAcquired = true) : (run r rows).effects = (r.body rows).1.effects := by
    unfold run
    rw [h]
    cases hb : r.body rows with
    | mk st res => cases res <;> simp
  have hstop (es : List Effect) (hes : ∀ x ∈ es, r.stream.OwnSend r.runOpts (r.batch rows) x)
      (hno : ¬ r.ReachesFanOut rows) (heq : (run r rows).effects = es) :
      ∃ es, (∀ x ∈ es, r.stream.OwnSend r.runOpts (r.batch rows) x) ∧
      (r.ReachesFanOut rows → (run r rows).effects = es ++ r.deliverDynamicRoutes
        (deliveryEvents (r.stream.processRoutes r.runOpts (r.batch rows) r.stream.routes {} {}).1
          (r.batch rows))) ∧
      (¬ r.ReachesFanOut rows → (run r rows).effects = es) :=
    ⟨es, hes, fun h => absurd h hno, fun _ => heq⟩
  cases hlock : r.lockAcquired with
  | false =>
    exact hstop [] (by simp) (fun h => by simpa [hlock] using h.lock)
      (by simp [run, hlock])
  | true =>
    cases hent : r.entryError with
    | some e =>
      exact hstop [] (by simp) (fun h => by simpa [hent] using h.entry)
        (by simp [hrun hlock, body, hent])
    | none =>
      cases hsrc : r.sourceAllows with
      | false =>
        refine hstop (r.body rows).1.effects ?_ (fun h => by simpa [hsrc] using h.source)
          (hrun hlock)
        simp [body, hent, hsrc, RunState.perform, RunStream.OwnSend]
      | true =>
        cases hf : r.fetched with
        | error e =>
          exact hstop [] (by simp)
            (fun h => by obtain ⟨f, hf'⟩ := h.fetched; simp [hf] at hf')
            (by simp [hrun hlock, body, hent, hsrc, hf])
        | ok fetched =>
          have hbatch : r.batch rows = (r.collect rows fetched).1 := by simp [batch, hf]
          have hlogs := r.collectLogs_ownSend (r.batch rows) fetched (r.collect rows fetched).2
          by_cases hb : r.batch rows = []
          · refine hstop _ hlogs (fun h => h.batch_ne hb) ?_
            simp [hrun hlock, body, hent, hsrc, hf, ← hbatch, hb, RunState.log, collectedState,
              RunState.perform]
          · cases hdry : r.runOpts.dryRun with
            | true =>
              refine hstop _ hlogs (fun h => by simpa [hdry] using h.delivers) ?_
              simp [hrun hlock, body, hent, hsrc, hf, ← hbatch, hb, hdry, RunState.log,
                collectedState, RunState.perform]
            | false =>
              have hbody : r.body rows = r.deliverBatch (r.batch rows)
                  (r.collectedState fetched (r.collect rows fetched).2) := by
                simp [body, hent, hsrc, hf, ← hbatch, hb, hdry]
              obtain ⟨es, hes, heq⟩ := deliverBatch_effects (r := r) (r.batch rows)
                (r.collectedState fetched (r.collect rows fetched).2)
                (by simpa [collectedState, RunState.perform] using hlogs)
              have hret : _ ↔ r.stream.StagesReturn (r.batch rows) :=
                r.stream.processRoutes_error_iff r.runOpts (r.batch rows) r.stream.routes {} {}
              refine ⟨es, hes, fun h => ?_, fun h => ?_⟩
              · rw [hrun hlock, hbody, heq, if_pos ⟨h.shared, hret.mpr h.stages⟩]
              · rw [hrun hlock, hbody, heq, if_neg, List.append_nil]
                rintro ⟨hsh, hst⟩
                exact h ⟨hlock, hent, hsrc, ⟨fetched, hf⟩, hb, hdry, hsh, hret.mp hst⟩

/-- `events` is what a route that delivered in this run had after protection. -/
def OutputOf (r : RunInput) (rows : List DeliveryLogRow) (events : List Event) : Prop :=
  ∃ x ∈ r.stream.routes, r.stream.Delivers r.runOpts (r.batch rows) x ∧
    ∃ p, r.stream.Prepares (r.batch rows) x p ∧ events = p.protectedEvents

/-- Dynamic routes are only ever handed post-protection output. -/
def ProtectedOnly (r : RunInput) (rows : List DeliveryLogRow) : Prop :=
  ∀ a ∈ attempts (run r rows).effects, ∀ id, a.target = .dynamicRoute id →
    r.OutputOf rows a.events

/-- The route is enabled and allowed, has events, and its destination takes them. -/
def Provides (r : RunInput) (batch : List Event) (x : RouteRun) : Prop :=
  ∃ p, r.stream.Prepares batch x p ∧ deliveryAllowedForDecision p.decision = true ∧
    p.events ≠ [] ∧ (r.stream.sendCall r.runOpts x p.events).Succeeds

theorem provides_iff (r : RunInput) (batch : List Event) (x : RouteRun) :
    r.Provides batch x ↔ r.stream.Delivers r.runOpts batch x := by
  unfold Provides RunStream.Delivers
  simp only [SendCall.sendRouteEvents_success_iff]

/-- The payload chosen for dynamic routes. -/
theorem deliveryEvents_spec (h : r.ReachesFanOut rows) {events : List Event}
    (he : events = deliveryEvents
      (r.stream.processRoutes r.runOpts (r.batch rows) r.stream.routes {} {}).1 (r.batch rows)) :
    ((∃ x ∈ r.stream.routes, r.Provides (r.batch rows) x) → r.OutputOf rows events) ∧
      ((∀ x ∈ r.stream.routes, ¬ r.Provides (r.batch rows) x) → events = r.batch rows) ∧
      events ≠ [] := by
  obtain ⟨hyes, hno⟩ := r.stream.processRoutes_reference r.runOpts (r.batch rows)
  simp only [provides_iff]
  refine ⟨fun hd => ?_, fun hn => ?_, ?_⟩
  · obtain ⟨x, p, hp, hxd, href⟩ := hyes hd
    obtain ⟨q, hq, hall, hev, -⟩ := id hxd
    obtain rfl := hp.unique hq
    refine ⟨x, hp.mem.1, hxd, p, hp, ?_⟩
    rw [he, deliveryEvents, href, if_neg (by simpa using hev)]
    simp [Prepared.events, hall]
  · rw [he, deliveryEvents, hno hn]
    simp
  · rw [he, deliveryEvents]
    split_ifs with hempty
    · exact h.batch_ne
    · simpa using hempty

/-- The sends of a run that are not those of dynamic routes are made by required routes. -/
theorem run_send {a : SendAttempt} (ha : a ∈ attempts (run r rows).effects)
    (hbase : ∀ id, a.target ≠ .dynamicRoute id) :
    ∃ x p, r.stream.Required (r.batch rows) x p ∧
      Effect.send a ∈ (r.stream.sendCall r.runOpts x p.events).sendRouteEvents.2 := by
  obtain ⟨es, hes, hreach, hstop⟩ := r.run_effects rows
  have hown (h : a ∈ attempts es) : ∃ x p, r.stream.Required (r.batch rows) x p ∧
      Effect.send a ∈ (r.stream.sendCall r.runOpts x p.events).sendRouteEvents.2 := by
    obtain ⟨e, he, hea⟩ := List.mem_filterMap.mp h
    cases e <;> simp only [Effect.attempt?, Option.some.injEq, reduceCtorEq] at hea
    subst hea
    exact hes _ he _ rfl
  by_cases hr : r.ReachesFanOut rows
  · rw [hreach hr, attempts_append, List.mem_append] at ha
    rcases ha with ha | ha
    · exact hown ha
    · obtain ⟨-, -, hne⟩ := deliveryEvents_spec hr rfl
      obtain ⟨m, -, -, rfl⟩ := (attempts_deliverDynamicRoutes r hne a).mp ha
      exact absurd rfl (hbase m.dynamicRouteId)
  · rw [hstop hr] at ha
    exact hown ha

/-- Dynamic routes get post-protection output only, exactly when a route delivered or no
dynamic route that matches the extracted batch gets to send. -/
theorem protectedOnly_iff (r : RunInput) (rows : List DeliveryLogRow) :
    r.ProtectedOnly rows ↔ (r.ReachesFanOut rows →
      (∃ x ∈ r.stream.routes, r.Provides (r.batch rows) x) ∨
        ∀ m ∈ (r.dynamicRoutes (r.batch rows)).getD [], ¬ r.DynamicOpen m) := by
  obtain ⟨es, hes, hreach, hstop⟩ := r.run_effects rows
  have hbase {a : SendAttempt} (ha : a ∈ attempts es) (id : ℤ) : a.target ≠ .dynamicRoute id := by
    obtain ⟨e, he, hea⟩ := List.mem_filterMap.mp ha
    have := (hes e he).base
    cases e <;> simp only [Effect.attempt?, Option.some.injEq, reduceCtorEq] at hea
    subst hea
    exact this id
  constructor
  · intro hprot hr
    obtain ⟨-, hraw, hne⟩ := deliveryEvents_spec hr rfl
    by_contra hcon
    rw [not_or] at hcon
    obtain ⟨hnone, hopen⟩ := hcon
    have hnone : ∀ x ∈ r.stream.routes, ¬ r.Provides (r.batch rows) x :=
      fun x hx hp => hnone ⟨x, hx, hp⟩
    push Not at hopen
    obtain ⟨m, hm, hmo⟩ := hopen
    rw [hraw hnone] at hne
    have hsent : (⟨.dynamicRoute m.dynamicRouteId, some m.destinationId, r.batch rows,
        m.result.error.isNone⟩ : SendAttempt) ∈ attempts (run r rows).effects := by
      rw [hreach hr, hraw hnone, attempts_append, List.mem_append]
      exact .inr ((attempts_deliverDynamicRoutes r hne _).mpr ⟨m, hm, hmo, rfl⟩)
    obtain ⟨x, hx, hxd, -⟩ := hprot _ hsent _ rfl
    exact hnone x hx ((provides_iff r _ x).mpr hxd)
  · intro hcond a ha id hid
    by_cases hr : r.ReachesFanOut rows
    · obtain ⟨hout, hraw, hne⟩ := deliveryEvents_spec hr rfl
      rw [hreach hr, attempts_append, List.mem_append] at ha
      rcases ha with ha | ha
      · exact absurd hid (hbase ha id)
      · obtain ⟨m, hm, hmo, rfl⟩ := (attempts_deliverDynamicRoutes r hne a).mp ha
        by_cases hex : ∃ x ∈ r.stream.routes, r.Provides (r.batch rows) x
        · exact hout hex
        · have hnone : ∀ x ∈ r.stream.routes, ¬ r.Provides (r.batch rows) x :=
            fun x hx hp => hex ⟨x, hx, hp⟩
          rcases hcond hr with h | h
          · exact absurd h hex
          · rw [hraw hnone] at hm
            exact absurd hmo (h m hm)
    · rw [hstop hr] at ha
      exact absurd hid (hbase ha id)

/-- The only route masks the number and quarantines the batch; a dynamic route still matches
it. -/
def quarantinedRun : RunInput where
  stream :=
    { ref := ⟨1, "alerts"⟩
      routes := [{ row := { id := 10, destination := { id := some 5 } }
                   protectionRules := [piiRule "$.ssn" .fullMask]
                   policy := fun es => .ok ⟨es, .quarantine, none⟩ }]
      routeIds := by decide
      engines := plainEngines }
  fetched := .ok [[("ssn", .str "123-45-6789")]]
  dynamicRoutes := fun _ => some [{ dynamicRouteId := 7, destinationId := 9 }]

/-- The unmasked event goes out to the dynamic destination. -/
theorem quarantinedRun_not_protectedOnly :
    (⟨.dynamicRoute 7, some 9, [[("ssn", .str "123-45-6789")]], true⟩ : SendAttempt) ∈
        attempts (run quarantinedRun []).effects ∧ ¬ quarantinedRun.ProtectedOnly [] := by
  have hsent : (⟨.dynamicRoute 7, some 9, [[("ssn", .str "123-45-6789")]], true⟩ :
      SendAttempt) ∈ attempts (run quarantinedRun []).effects := by decide +kernel
  refine ⟨hsent, fun h => ?_⟩
  obtain ⟨x, -, -, p, hp, heq⟩ := h _ hsent 7 rfl
  have hmasked : ∀ y ∈ quarantinedRun.stream.stageOutcomes (quarantinedRun.batch [])
      quarantinedRun.stream.routes {}, y.2.toOption.map (·.protectedEvents) =
        some [[("ssn", .str "********")]] := by decide +kernel
  have := hmasked _ hp
  rw [Except.toOption, Option.map_some, ← heq] at this
  exact absurd this (by decide)

end RunInput

end Runner
