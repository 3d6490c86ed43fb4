import DataRelay.Runner.DynamicRoutes
import DataRelay.Lib.RunLog

/-! Deduplication over a sequence of runs. The registry is written by each successful route
on its own, so a recorded key speaks for the other routes only in runs where they were
served too. -/
namespace Runner
open Delivery Dedup
open RouteProtection (plainEngines)

/-- The rows the run's transaction commits. -/
def committedRows (rows : List DeliveryLogRow) (r : RunInput) : List DeliveryLogRow :=
  match (run r rows).flushed with
  | some p => p.logPayloads.map (⟨r.now, ·⟩)
  | none => []

def runStep (rows : List DeliveryLogRow) (r : RunInput) : List DeliveryLogRow :=
  rows ++ committedRows rows r

/-- The delivery log a sequence of runs leaves, from an empty one. -/
def history (runs : List RunInput) : List DeliveryLogRow := runs.foldl runStep []

theorem runStep_appendOnly : RunLog.AppendOnly runStep id committedRows := ⟨fun _ _ => rfl⟩

namespace Pending

variable {queue : Option StreamDedupQueue} {sent : RegistryRecord → Prop} {p : Pending}

/-- The buffered registry rows were written by sends that `sent` allows, for keys of the
run's own queue. -/
structure RegistryInv (queue : Option StreamDedupQueue) (sent : RegistryRecord → Prop)
    (p : Pending) : Prop where
  summary : ∀ s, p.dedupSummary = some s →
    ∃ q, queue = some q ∧ s.insertedKeys = q.summary.insertedKeys
  rows : ∀ payload ∈ p.logPayloads, PlainLog payload ∨
    ∃ q, queue = some q ∧ ∃ streamId record summary, sent record ∧
      summary.insertedKeys = q.summary.insertedKeys ∧
        payload ∈ (recordDedupRegistryForRouteSuccess streamId record summary).2

/-- Effects that keep `RegistryInv`. -/
def Allowed (sent : RegistryRecord → Prop) : Effect → Prop
  | .log payload => PlainLog payload
  | .recordRegistry record => sent record
  | _ => True

/-- A buffered payload is one of the old ones or the new one. -/
theorem mem_log {payload x : LogPayload} (h : x ∈ (p.log payload).logPayloads) :
    x ∈ p.logPayloads ∨ x = payload := by
  unfold log at h
  split_ifs at h
  · simpa using h
  · exact .inl h

theorem mem_logs {payloads : List LogPayload} {x : LogPayload}
    (h : x ∈ (p.logs payloads).logPayloads) : x ∈ p.logPayloads ∨ x ∈ payloads := by
  induction payloads generalizing p with
  | nil => exact .inl h
  | cons y ys ih =>
    rcases ih h with h | h
    · rcases mem_log h with h | rfl
      · exact .inl h
      · exact .inr List.mem_cons_self
    · exact .inr (List.mem_cons_of_mem _ h)

@[simp] theorem log_dedupSummary (p : Pending) (payload : LogPayload) :
    (p.log payload).dedupSummary = p.dedupSummary := by
  unfold log
  split_ifs <;> rfl

@[simp] theorem logs_dedupSummary (p : Pending) (payloads : List LogPayload) :
    (p.logs payloads).dedupSummary = p.dedupSummary := by
  induction payloads generalizing p with
  | nil => rfl
  | cons x xs ih => simpa [logs] using ih (p.log x)

theorem RegistryInv.log (h : RegistryInv queue sent p) {payload : LogPayload}
    (hp : PlainLog payload) : RegistryInv queue sent (p.log payload) := by
  refine ⟨by simpa using h.summary, fun x hx => ?_⟩
  rcases mem_log hx with hx | rfl
  · exact h.rows x hx
  · exact .inl hp

theorem RegistryInv.apply (h : RegistryInv queue sent p) (streamId : ℤ) {e : Effect}
    (he : Allowed sent e) : RegistryInv queue sent (p.apply streamId e) := by
  cases e with
  | log payload => exact h.log he
  | disableRoute id =>
    simp only [Pending.apply]
    split_ifs
    · exact h
    · exact ⟨h.summary, h.rows⟩
  | recordRegistry record =>
    simp only [Pending.apply]
    split
    · exact h
    · next s hs =>
      obtain ⟨q, hq, hkeys⟩ := h.summary s hs
      refine ⟨?_, fun x hx => ?_⟩
      · intro s' hs'
        simp only [logs_dedupSummary, Option.some.injEq] at hs'
        exact ⟨q, hq, by rw [← hs', recordRegistry_insertedKeys, hkeys]⟩
      · rcases mem_logs hx with hx | hx
        · exact h.rows x hx
        · exact .inr ⟨q, hq, streamId, record, s, he, hkeys, hx⟩
  | setStreamStatus status => exact ⟨h.summary, h.rows⟩
  | send a => exact h
  | recordReplay row => exact h

theorem RegistryInv.applyAll (h : RegistryInv queue sent p) (streamId : ℤ) {es : List Effect}
    (hes : ∀ e ∈ es, Allowed sent e) : RegistryInv queue sent (p.applyAll streamId es) := by
  induction es generalizing p with
  | nil => exact h
  | cons e es ih =>
    rw [List.forall_mem_cons] at hes
    exact ih (h.apply streamId hes.1) hes.2

end Pending

theorem RunStream.Required.events_eq {s : RunStream} {batch : List Event} {x : RouteRun}
    {p : Prepared} (h : s.Required batch x p) : p.events = p.protectedEvents := by
  simp [Prepared.events, h.2]

namespace RunInput

variable {r : RunInput} {rows : List DeliveryLogRow}

/-- The dedup queue of the run, when dedup applies. -/
def dedupQueue (r : RunInput) (rows : List DeliveryLogRow) : Option StreamDedupQueue :=
  match r.fetched with
  | .ok fetched => (r.collect rows fetched).2
  | .error _ => none

/-- The send made for a route whose stages returned `p`. -/
def call (r : RunInput) (x : RouteRun) (p : Prepared) : SendCall :=
  r.stream.sendCall r.runOpts x p.events

/-- `record` is handed to the registry by a required route of this run. -/
def Recorded (r : RunInput) (rows : List DeliveryLogRow) (record : RegistryRecord) : Prop :=
  ∃ x p, r.stream.Required (r.batch rows) x p ∧ (r.call x p).RecordsKeys ∧
    record = (r.call x p).registryRecord

theorem routeEffect_allowed {x : Effect}
    (h : r.stream.RouteEffect r.runOpts (r.batch rows) x) :
    Pending.Allowed (r.Recorded rows) x := by
  rcases h with ⟨payload, rfl, hplain⟩ | ⟨q, p, hreq, hx⟩
  · exact hplain
  · have hown := SendCall.sendRouteEvents_ownEffect _ x hx
    cases x with
    | log payload => exact hown
    | recordRegistry record => exact ⟨q, p, hreq, hown.2, hown.1⟩
    | _ => trivial

/-- Dynamic routes leave the registry alone. -/
theorem deliverDynamicRoutes_allowed (r : RunInput) (sent : RegistryRecord → Prop)
    (events : List Event) :
    ∀ x ∈ r.deliverDynamicRoutes events, Pending.Allowed sent x := by
  have hreplay (m : DynamicRouteMatch) (e : SendError) :
      ∀ x ∈ r.recordDynamicReplay m events e, Pending.Allowed sent x := by
    have hrow (row : Option StreamReplayEvent) :
        ∀ x ∈ (row.map Effect.recordReplay).toList, Pending.Allowed sent x := by
      cases row <;> simp [Pending.Allowed]
    unfold recordDynamicReplay
    split
    · simp
    split
    · simp
    split
    · simp
    split
    · simp
    · exact hrow _
  have hlog {stage : String} (h : stage ≠ "dedup_registry") (m : DynamicRouteMatch)
      (extra : LogPayload) : Pending.Allowed sent (r.dynamicLog stage m extra) :=
    plainLog_cons h _
  unfold deliverDynamicRoutes
  split
  · simp
  · intro x hx
    obtain ⟨m, -, hm⟩ := List.mem_flatMap.mp hx
    unfold deliverDynamicRoute at hm
    split at hm
    · exact List.mem_singleton.mp hm ▸ hlog (by decide) m _
    split at hm
    · exact List.mem_singleton.mp hm ▸ hlog (by decide) m _
    split at hm
    · exact List.mem_singleton.mp hm ▸ hlog (by decide) m _
    split at hm
    · simp only [List.mem_cons, List.not_mem_nil, or_false] at hm
      rcases hm with rfl | rfl
      · trivial
      · exact hlog (by decide) m _
    · simp only [List.cons_append, List.nil_append, List.mem_cons] at hm
      rcases hm with rfl | rfl | hm
      · trivial
      · exact hlog (by decide) m _
      · exact hreplay m _ x hm

theorem finishDelivery_registryInv {queue : Option StreamDedupQueue}
    {sent : RegistryRecord → Prop} (batch : List Event) (pipeline : RoutePipelineResult)
    {st : RunState} (h : st.pending.RegistryInv queue sent) :
    (r.finishDelivery batch pipeline st).1.pending.RegistryInv queue sent := by
  have hstaged (u : Option CheckpointUpdate) :
      ({ st.pending with checkpoint := u } : Pending).RegistryInv queue sent :=
    ⟨h.summary, h.rows⟩
  unfold finishDelivery
  simp only
  split
  · exact h
  · have hpending {c : Prop} [Decidable c] {p : Pending} (hp : p.RegistryInv queue sent) :
        (if c then p else st.pending).RegistryInv queue sent := by
      split_ifs
      · exact hp
      · exact h
    have hlog (u : Option CheckpointUpdate) (o : FanOutOutcome) (n : ℕ) (b : Bool) :=
      (hstaged u).log (plainLog_cons (by decide) _ : PlainLog (r.checkpointUpdatePayload o n b))
    split
    · exact hpending (hlog ..)
    · exact (hpending (hlog ..)).log
        (plainLog_cons (by decide) _ : PlainLog (r.runCompletePayload ..))

theorem deliverBatch_registryInv {queue : Option StreamDedupQueue} {st : RunState}
    (h : st.pending.RegistryInv queue (r.Recorded rows)) :
    (r.deliverBatch (r.batch rows) st).1.pending.RegistryInv queue (r.Recorded rows) := by
  have hroutes : ∀ x ∈ (r.stream.processRoutes r.runOpts (r.batch rows) r.stream.routes
      {} {}).1.effects, r.stream.RouteEffect r.runOpts (r.batch rows) x :=
    RunStream.processRoutes_effects _ {} (fun _ _ h => h) {} (by simp)
  unfold deliverBatch
  cases r.sharedPhaseError with
  | some e => exact h
  | none =>
    generalize r.stream.processRoutes r.runOpts (r.batch rows) r.stream.routes {} {} = out
      at hroutes ⊢
    obtain ⟨pipeline, err⟩ := out
    have hpipe := h.applyAll r.stream.ref.id fun x hx => routeEffect_allowed (hroutes x hx)
    cases err with
    | some e => exact hpipe
    | none =>
      have hallowed : ∀ x ∈ r.routeProcessingLog pipeline ::
          r.deliverDynamicRoutes (deliveryEvents pipeline (r.batch rows)),
          Pending.Allowed (r.Recorded rows) x :=
        List.forall_mem_cons.mpr ⟨plainLog_cons (by decide) _,
          r.deliverDynamicRoutes_allowed _ _⟩
      have hdyn := hpipe.applyAll r.stream.ref.id hallowed
      cases r.fanOutError with
      | some e => exact hdyn
      | none => exact finishDelivery_registryInv _ _ hdyn

/-- Whatever registry rows a run has buffered, its own required routes wrote them. -/
theorem body_registryInv (r : RunInput) (rows : List DeliveryLogRow) :
    (r.body rows).1.pending.RegistryInv (r.dedupQueue rows) (r.Recorded rows) := by
  have hempty : ({} : Pending).RegistryInv (r.dedupQueue rows) (r.Recorded rows) :=
    ⟨by simp, by simp⟩
  unfold body
  split
  · exact hempty
  split
  · refine hempty.applyAll r.stream.ref.id ?_
    simp only [List.forall_mem_cons, List.not_mem_nil, false_imp_iff, implies_true, and_true]
    exact ⟨trivial, plainLog_cons (by decide) _, plainLog_cons (by decide) _⟩
  split
  · exact hempty
  · next fetched hf =>
    have hbatch : r.batch rows = (r.collect rows fetched).1 := by simp [batch, hf]
    have hqueue : r.dedupQueue rows = (r.collect rows fetched).2 := by simp [dedupQueue, hf]
    have hlogs : ∀ x ∈ r.collectLogs fetched (r.collect rows fetched).2,
        Pending.Allowed (r.Recorded rows) x := by
      have hplain {stage : String} (h : stage ≠ "dedup_registry") (rest : LogPayload) :
          Pending.Allowed (r.Recorded rows) (.log (("stage", .str stage) :: rest)) :=
        plainLog_cons h rest
      unfold collectLogs
      refine List.forall_mem_append.mpr ⟨?_, ?_⟩
      · simp only [List.forall_mem_cons, List.not_mem_nil, false_imp_iff, implies_true, and_true]
        exact ⟨hplain (by decide) _, hplain (by decide) _⟩
      · cases (r.collect rows fetched).2 with
        | none => simp
        | some q => simpa using hplain (by decide) _
    have hst : (r.collectedState fetched (r.collect rows fetched).2).pending.RegistryInv
        (r.dedupQueue rows) (r.Recorded rows) := by
      refine Pending.RegistryInv.applyAll ⟨?_, by simp⟩ r.stream.ref.id hlogs
      intro s hs
      obtain ⟨q, hq, rfl⟩ := Option.map_eq_some_iff.mp hs
      exact ⟨q, hqueue.trans hq, rfl⟩
    simp only
    split
    · exact hst.log (plainLog_cons (by decide) _ : PlainLog (r.runCompletePayload ..))
    split
    · exact hst.log (plainLog_cons (by decide) _ : PlainLog (r.runCompletePayload ..))
    · rw [← hbatch]
      exact deliverBatch_registryInv hst

theorem deliverBatch_queue (r : RunInput) (batch : List Event) (st : RunState) :
    (r.deliverBatch batch st).1.queue = st.queue := by
  have hfinish (pipeline : RoutePipelineResult) (st : RunState) :
      (r.finishDelivery batch pipeline st).1.queue = st.queue := by
    unfold finishDelivery
    simp only
    split
    · rfl
    · split <;> rfl
  unfold deliverBatch
  split
  · rfl
  · simp only
    split
    · rfl
    · split
      · rfl
      · exact hfinish _ _

/-- The queue a run hands back is the one of its collected batch. -/
theorem run_queue {q : StreamDedupQueue} (h : (run r rows).queue = some q) :
    r.dedupQueue rows = some q := by
  have hbody : (r.body rows).1.queue = some q := by
    unfold run at h
    split at h
    · cases h
    · cases hb : r.body rows with
      | mk st res =>
        rw [hb] at h
        cases res <;> exact h
  unfold body at hbody
  split at hbody
  · simp at hbody
  split at hbody
  · simp [RunState.perform] at hbody
  split at hbody
  · simp at hbody
  · next fetched hf =>
    simp only [dedupQueue, hf]
    simp only at hbody
    split at hbody
    · exact hbody
    split at hbody
    · exact hbody
    · rw [deliverBatch_queue] at hbody
      exact hbody

/-- The event carries the dedup key `k`. -/
def CarriesKey (k : String) (event : Event) : Prop :=
  Dict.get? gdcDedupKeyMeta event = some (.str k)

/-- The condition under which a recorded key speaks for all routes of its run: the stages of
a required route keep the key of every event, no event without a key comes marked with one,
and a run in which some required route records serves all of them. -/
structure SharesKeys (r : RunInput) (rows : List DeliveryLogRow) : Prop where
  kept : ∀ x p, r.stream.Required (r.batch rows) x p →
    p.protectedEvents.map (Dict.get? gdcDedupKeyMeta) =
      (r.batch rows).map (Dict.get? gdcDedupKeyMeta)
  unmarked : ∀ fetched, r.fetched = .ok fetched → ∀ e ∈ fetched,
    extractDedupKey r.extractOne e r.dedupConfig = none → Dict.get? gdcDedupKeyMeta e = none
  together : (∃ x p, r.stream.Required (r.batch rows) x p ∧ (r.call x p).RecordsKeys) →
    ∀ x p, r.stream.Required (r.batch rows) x p → (r.call x p).Served

/-- An event with key `k` was fetched in this run, and every enabled, policy-allowed route
had a batch with it delivered or its failure absorbed. -/
structure Covered (r : RunInput) (rows : List DeliveryLogRow) (k : String) : Prop where
  fetched : ∃ fetched, r.fetched = .ok fetched ∧ ∃ e ∈ fetched, ∃ source,
    extractDedupKey r.extractOne e r.dedupConfig = some (k, source)
  served : ∀ x p, r.stream.Required (r.batch rows) x p →
    (∃ e ∈ (r.call x p).routeEvents, CarriesKey k e) ∧
      ((r.call x p).Delivered (r.call x p).sendRouteEvents.2 ∨
        (r.call x p).sendRouteEvents.1.failureAbsorbed = true)

/-- A queued event carries the key it was inserted under. -/
theorem carriesKey_of_keyedBy {extractOne : Event → String → Option Json}
    {config : StreamDedupConfig} {k : String} {e : Event} {x : DedupQueueEntry}
    (h : KeyedBy extractOne config k e x) : CarriesKey k x.event := by
  rw [CarriesKey, h.2.2]
  simp [attachDedupMetadata, gdcDedupKeyMeta, gdcDedupQueueIdMeta]

/-- The keys of earlier runs that a run refuses; without a session it loads none. -/
def seedKeys (r : RunInput) (rows : List DeliveryLogRow) : List String :=
  if r.session.isNone then []
  else loadDedupSeedKeys r.dedupConfig r.now r.checkpointUpdatedAt rows

/-- A refused key was read from a registry row, in a session. -/
theorem mem_seedKeys {k : String} (h : k ∈ r.seedKeys rows) :
    r.session.isSome = true ∧ ∃ row ∈ rows, row.isRegistry = true ∧ k ∈ row.dedupKeys := by
  unfold seedKeys at h
  split_ifs at h with hsession
  · cases h
  · exact ⟨by simpa [Option.isSome_iff_ne_none] using hsession, mem_loadDedupSeedKeys h⟩

/-- What is known of a run in which dedup ran. -/
theorem dedupQueue_spec {q : StreamDedupQueue} (h : r.dedupQueue rows = some q) :
    ∃ fetched, r.fetched = .ok fetched ∧ r.batch rows = q.events ∧
      QueueInv r.extractOne r.dedupConfig (r.seedKeys rows) fetched q := by
  cases hf : r.fetched with
  | error e => simp [dedupQueue, hf] at h
  | ok fetched =>
    have hcollect : r.collect rows fetched = applyStreamDedup r.extractOne r.dedupConfig
        r.runOpts.applyDedup (r.seedKeys rows) fetched := rfl
    simp only [dedupQueue, hf, hcollect, applyStreamDedup] at h
    split_ifs at h with happly
    obtain rfl := Option.some.inj h
    refine ⟨fetched, rfl, ?_, ingest_inv _ _ _ _⟩
    simp only [batch, hf, hcollect, applyStreamDedup]
    rw [if_neg happly]

/-- A key a required route records was fetched in the run and travels in its batch; a batch that
carries no key records all keys the run inserted. -/
theorem recorded_key (hs : r.SharesKeys rows) {q : StreamDedupQueue}
    (hq : r.dedupQueue rows = some q) {x : RouteRun} {p : Prepared}
    (hreq : r.stream.Required (r.batch rows) x p) {summary : DedupSummary}
    (hkeys : summary.insertedKeys = q.summary.insertedKeys) {entry : String × Option ℤ}
    (hentry : entry ∈ deliveredEntries (r.call x p).registryRecord summary) :
    ∃ fetched, r.fetched = .ok fetched ∧ (∃ e ∈ fetched, ∃ source,
        extractDedupKey r.extractOne e r.dedupConfig = some (PyText.strip entry.1, source)) ∧
      ∃ b ∈ r.batch rows, CarriesKey (PyText.strip entry.1) b := by
  obtain ⟨fetched, hf, hbatch, hinv⟩ := dedupQueue_spec hq
  have hfrom {k : String} {e : Event} {y : DedupQueueEntry} (hy : y ∈ q.entries)
      (he : e ∈ fetched) (hkeyed : KeyedBy r.extractOne r.dedupConfig k e y) :
      (∃ e ∈ fetched, ∃ source, extractDedupKey r.extractOne e r.dedupConfig =
          some (PyText.strip k, source)) ∧ ∃ b ∈ r.batch rows, CarriesKey (PyText.strip k) b := by
    obtain ⟨source, hkey⟩ := hkeyed.1
    rw [strip_of_extractDedupKey hkey]
    refine ⟨⟨e, he, source, hkey⟩, y.event, ?_, carriesKey_of_keyedBy hkeyed⟩
    rw [hbatch]
    exact List.mem_map_of_mem hy
  refine ⟨fetched, hf, ?_⟩
  unfold deliveredEntries at hentry
  simp only at hentry
  split at hentry
  · obtain ⟨k, hk, rfl⟩ := List.mem_map.mp hentry
    rw [hkeys] at hk
    obtain ⟨i, hi⟩ := (hinv.inserted k).mp hk
    obtain ⟨y, hy, e, he, hkeyed⟩ := hinv.indexed _ hi
    exact hfrom (List.mem_of_getElem? hy) he hkeyed
  · obtain ⟨ev, hev, hmeta⟩ := List.mem_filterMap.mp hentry
    split at hmeta
    · next key hkey =>
      rw [Option.ite_none_left_eq_some, Option.some.injEq] at hmeta
      obtain ⟨-, rfl⟩ := hmeta
      have hmem : some (Json.str key) ∈ p.protectedEvents.map (Dict.get? gdcDedupKeyMeta) := by
        rw [← hreq.events_eq]
        exact List.mem_map.mpr ⟨ev, hev, hkey⟩
      rw [hs.kept x p hreq, hbatch] at hmem
      obtain ⟨b, hb, hbkey⟩ := List.mem_map.mp hmem
      obtain ⟨y, hy, rfl⟩ := List.mem_map.mp hb
      obtain ⟨e, he, ⟨k, -, hkeyed⟩ | ⟨hnone, heq⟩⟩ := hinv.origin y hy
      · have hk := carriesKey_of_keyedBy hkeyed
        rw [CarriesKey, hbkey, Option.some.injEq, Json.str.injEq] at hk
        subst hk
        simpa using hfrom hy he hkeyed
      · rw [heq, hs.unmarked fetched hf e he hnone] at hbkey
        cases hbkey
    · cases hmeta

theorem covered_of_recorded (hs : r.SharesKeys rows) {q : StreamDedupQueue}
    (hq : r.dedupQueue rows = some q) {record : RegistryRecord} (hrec : r.Recorded rows record)
    {summary : DedupSummary} (hkeys : summary.insertedKeys = q.summary.insertedKeys)
    {entry : String × Option ℤ} (hentry : entry ∈ deliveredEntries record summary) :
    r.Covered rows (PyText.strip entry.1) := by
  obtain ⟨x, p, hreq, hrecords, rfl⟩ := hrec
  obtain ⟨fetched, hf, hkey, b, hb, hcarry⟩ := recorded_key hs hq hreq hkeys hentry
  refine ⟨⟨fetched, hf, hkey⟩, fun y p' hreq' => ⟨?_, ?_⟩⟩
  · have hmem : some (Json.str (PyText.strip entry.1)) ∈
        (r.batch rows).map (Dict.get? gdcDedupKeyMeta) := List.mem_map.mpr ⟨b, hb, hcarry⟩
    rw [← hs.kept y p' hreq', ← hreq'.events_eq] at hmem
    obtain ⟨e, he, hkey'⟩ := List.mem_map.mp hmem
    exact ⟨e, he, hkey'⟩
  · exact (SendCall.served_iff _).mp (hs.together ⟨x, p, hreq, hrecords⟩ y p' hreq')

/-- A key enters the registry only in a run that covers it. -/
theorem covered_of_committed (hs : r.SharesKeys rows) {row : DeliveryLogRow}
    (hrow : row ∈ committedRows rows r) (hreg : row.isRegistry = true) {k : String}
    (hk : k ∈ row.dedupKeys) : r.Covered rows k := by
  have hpending : row.payload ∈ (r.body rows).1.pending.logPayloads := by
    unfold committedRows run at hrow
    cases hb : r.body rows with
    | mk st res =>
      rw [hb] at hrow
      cases res with
      | error e => split_ifs at hrow <;> simp at hrow
      | ok o =>
        split_ifs at hrow
        · simp at hrow
        · simp at hrow
        · obtain ⟨payload, hp, rfl⟩ := List.mem_map.mp hrow
          exact hp
  rcases (r.body_registryInv rows).rows _ hpending with hplain | hwritten
  · exact absurd (of_decide_eq_true hreg) hplain
  · obtain ⟨q, hq, streamId, record, summary, hrec, hkeys, hmem⟩ := hwritten
    obtain ⟨entry, hentry, rfl⟩ := recordRegistry_keys hmem (t := row.createdAt) hreg hk
    exact covered_of_recorded hs hq hrec hkeys hentry

end RunInput

/-- Each run that is followed by one with a session shares its keys: the registry it leaves may
be read. -/
def SharesKeysBefore (runs : List RunInput) : Prop :=
  ∀ before r after, runs = before ++ r :: after → (∃ later ∈ after, later.session.isSome) →
    r.SharesKeys (history before)

/-- Whatever a run of the sequence drops for the registry's sake, an earlier run had brought
to all its routes. -/
def NeverLost (runs : List RunInput) : Prop :=
  ∀ before r after, runs = before ++ r :: after →
    ∀ q, (run r (history before)).queue = some q →
      ∀ d ∈ q.duplicates, d.reason = .keyInScopeRegistry →
        ∃ earlier e later, before = earlier ++ e :: later ∧
          e.Covered (history earlier) d.dedupKey

/-- Over every sequence of runs that share their keys, dedup never loses an event for a
sibling route. -/
theorem history_neverLost (runs : List RunInput) (h : SharesKeysBefore runs) :
    NeverLost runs := by
  rintro before r after rfl q hq d hd hreason
  obtain ⟨fetched, -, -, hinv⟩ := RunInput.dedupQueue_spec (RunInput.run_queue hq)
  obtain ⟨hseed, -, -⟩ := hinv.seeded d hd hreason
  obtain ⟨hsession, row, hrow, hreg, hk⟩ := RunInput.mem_seedKeys hseed
  rcases runStep_appendOnly.origin [] before hrow with hnil | ⟨earlier, e, later, rfl, hmem⟩
  · simp at hnil
  · have hshares : e.SharesKeys (history earlier) :=
      h earlier e (later ++ r :: after) (by simp)
        ⟨r, List.mem_append_right _ List.mem_cons_self, hsession⟩
    exact ⟨earlier, e, later, rfl, RunInput.covered_of_committed hshares hmem hreg hk⟩

/-- A run on a request session that fetches one event for two routes, with last-24-hours
dedup. -/
def siblingRun (world : SendWorld) : RunInput where
  stream :=
    { ref := ⟨1, "alerts"⟩
      routes :=
        [{ row := { id := 10, destination := { id := some 5 } } },
         { row := { id := 11, destination := { id := some 6 }
                    failurePolicy := .pauseStreamOnFailure }
           world }]
      routeIds := by simp
      engines := plainEngines }
  session := some {}
  fetched := .ok [[("event_id", .str "e-1")]]
  dedupConfig := { enabled := true, scope := .lastNHours }

/-- The second route's destination is down. -/
def siblingDown : RunInput := siblingRun
  { primary := ⟨12, some ⟨.destinationSend, "DestinationSendError", some 503, "HTTP 503"⟩⟩ }

theorem siblingDown_lost : ¬ NeverLost [siblingDown, siblingDown] := by
  intro h
  have hdup : (run siblingDown (history [siblingDown])).queue.any
      (fun q => q.duplicates.any fun d => d.reason = .keyInScopeRegistry) = true := by
    decide +kernel
  obtain ⟨q, hq, hany⟩ := (Option.any_eq_true _ _).mp hdup
  obtain ⟨d, hd, hreason⟩ := List.any_eq_true.mp hany
  obtain ⟨earlier, e, later, hsplit, hcov⟩ :=
    h [siblingDown] siblingDown [] rfl q hq d hd (of_decide_eq_true hreason)
  obtain ⟨rfl, rfl, rfl⟩ : earlier = [] ∧ e = siblingDown ∧ later = [] := by
    simpa [List.singleton_eq_append_iff] using hsplit
  have hserved := (hcov.served siblingDown.stream.routes[1]
    ⟨siblingDown.batch [], siblingDown.batch [], .allow, none⟩ ⟨by
      simp only [RunStream.Prepares]
      exact List.mem_cons_of_mem _ List.mem_cons_self, rfl⟩).2
  revert hserved
  unfold SendCall.Delivered
  decide +kernel

/-- With both destinations up, the stages keep the keys and every route is served. -/
theorem siblingUp_sharesKeys : (siblingRun {}).SharesKeys [] := by
  have hmem {x : RouteRun} {p : Prepared}
      (h : (siblingRun {}).stream.Prepares ((siblingRun {}).batch []) x p) :
      p.protectedEvents = (siblingRun {}).batch [] := by
    have hall : ∀ y ∈ (siblingRun {}).stream.stageOutcomes ((siblingRun {}).batch [])
        (siblingRun {}).stream.routes {}, y.2.toOption.map (·.protectedEvents) =
          some ((siblingRun {}).batch []) := by decide +kernel
    exact Option.some.inj (hall _ h)
  refine ⟨?_, ?_, ?_⟩
  · rintro x p ⟨hp, -⟩
    rw [hmem hp]
  · intro fetched hf e he hnone
    obtain rfl := Except.ok.inj hf
    obtain rfl := List.mem_singleton.mp he
    rfl
  · rintro - x p ⟨hp, -⟩
    have hx := hp.mem.1
    simp only [siblingRun, List.mem_cons, List.not_mem_nil, or_false] at hx
    rcases hx with rfl | rfl <;>
    · exact ⟨⟨rfl, rfl⟩, by simp [RunInput.call, RunStream.sendCall]⟩

/-- The second run drops the event, and the first had delivered it to both routes. -/
theorem siblingUp_neverLost :
    (run (siblingRun {}) (history [siblingRun {}])).queue.any
        (fun q => q.duplicates.any fun d => d.reason = .keyInScopeRegistry) = true ∧
      SharesKeysBefore [siblingRun {}, siblingRun {}] ∧
      NeverLost [siblingRun {}, siblingRun {}] := by
  have hshares : SharesKeysBefore [siblingRun {}, siblingRun {}] := by
    rintro before r after hsplit ⟨later, hlater, -⟩
    cases before with
    | nil =>
      obtain ⟨rfl, -⟩ := List.cons.inj hsplit
      exact siblingUp_sharesKeys
    | cons x before =>
      have hlen := congrArg List.length hsplit
      have := List.length_pos_of_mem hlater
      simp at hlen
      omega
  exact ⟨by decide +kernel, hshares, history_neverLost _ hshares⟩

end Runner
