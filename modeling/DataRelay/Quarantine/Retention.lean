import DataRelay.Quarantine.Release
import DataRelay.RoutePolicy.Enforcement

/-! What is left of the events a policy withheld once the checkpoint has moved past them: the
row of a quarantine, from which they can be released to the route. -/
namespace Quarantine
open Delivery Runner RoutePolicy
open RouteProtection (plainEngines)

/-- The row the policy stage inserted, as release finds it. -/
def storedRow (row : StreamQuarantineEvent) : QuarantineRow where
  routeId := some row.routeId
  events := row.protectedPayload

/-- The call finds the route of the row enabled and its destination takes the events. -/
structure ReleaseCall.CanSendTo (call : ReleaseCall) (routeId : ℤ) (routes : List ReleaseRoute)
    (route : ReleaseRoute) : Prop where
  lock : call.lockAvailable = true
  loaded : call.routes = .ok routes
  ids : (routes.map ReleaseRoute.id).Nodup
  mem : route ∈ routes
  id : route.id = routeId
  enabled : route.enabled = true
  destination : route.destinationEnabled = true
  sends : route.sendError = none
  writes : call.updateCheckpoint = true → call.checkpointWrites = true

/-- Only the route of the row is sent to. -/
theorem ReleaseCall.CanSendTo.actionable {call : ReleaseCall} {routeId : ℤ}
    {routes : List ReleaseRoute} {route : ReleaseRoute} (h : call.CanSendTo routeId routes route) :
    routes.filter (·.actionable (some routeId)) = [route] := by
  have hnodup : routes.Nodup := h.ids.of_map
  have hsame : ∀ r ∈ routes, r.actionable (some routeId) = true ↔ r = route := by
    intro r hr
    constructor
    · intro hact
      simp only [ReleaseRoute.actionable, Option.all_some, Bool.and_eq_true, decide_eq_true_eq]
        at hact
      exact List.inj_on_of_nodup_map h.ids hr h.mem (hact.1.1.symm.trans h.id.symm)
    · rintro rfl
      simp [ReleaseRoute.actionable, h.id, h.enabled, h.destination]
  have hfilter : routes.filter (·.actionable (some routeId)) = routes.filter (· == route) := by
    apply List.filter_congr
    intro r hr
    rw [Bool.eq_iff_iff, hsame r hr, beq_iff_eq]
  rw [hfilter, List.filter_beq, List.count_eq_one_of_mem hnodup h.mem, List.replicate_one]

/-- Whenever its route can be sent to, the row is released, to that route alone. -/
def Releasable (row : QuarantineRow) (routeId : ℤ) : Prop :=
  ∀ call routes route, ReleaseCall.CanSendTo call routeId routes route →
    routes.filter (·.actionable row.routeId) = [route] ∧
      ∀ checkpoint, ∃ result row' checkpoint',
        call.executeQuarantineRelease (some row) checkpoint = .ok (result, row', checkpoint') ∧
          result.outcome = "released" ∧ row'.status = .released

theorem releasable_storedRow {row : StreamQuarantineEvent} (h : row.protectedPayload ≠ []) :
    Releasable (storedRow row) row.routeId := by
  intro call routes route hcan
  refine ⟨hcan.actionable, ?_⟩
  intro checkpoint
  have hroutes : routes ≠ [] := List.ne_nil_of_mem hcan.mem
  have hdeliver : deliverProtectedEventsToRoutes routes row.protectedPayload (some row.routeId) =
      (true, none) := by
    simp [deliverProtectedEventsToRoutes, hroutes, h, hcan.actionable, hcan.sends]
  have hrefusal : (storedRow row).refusal = none := by
    simp [QuarantineRow.refusal, storedRow, h]
  have hwrite : (call.updateCheckpoint && !call.checkpointWrites) = false := by
    cases hupdate : call.updateCheckpoint with
    | false => rfl
    | true => simp [hcan.writes hupdate]
  unfold ReleaseCall.executeQuarantineRelease
  simp only [hcan.lock, hrefusal, hcan.loaded, hwrite, Bool.not_true, Bool.false_eq_true,
    ↓reduceIte]
  simp only [storedRow, hdeliver]
  exact ⟨_, _, _, rfl, rfl, rfl⟩

/-- The stage left a row of the route that has the event and can be released to the route. -/
def Retained (c : PolicyCall) (events : List Event) (e : Event) : Prop :=
  ∃ out row, c.routePolicyStage events = .ok out ∧ out.quarantineRow = some row ∧
    row.routeId = c.routeId ∧ e ∈ row.protectedPayload ∧ Releasable (storedRow row) c.routeId

/-- A row of the route with the event has outlasted the run. -/
def Held (r : RunInput) (rows : List Dedup.DeliveryLogRow) (routeId : ℤ) (e : Event) : Prop :=
  ∃ row ∈ (run r rows).quarantineRows, row.routeId = routeId ∧ e ∈ row.protectedPayload ∧
    Releasable (storedRow row) routeId

/-- A run that stages a checkpoint has entered the route loop and been through the stages of every
enabled route. -/
theorem stages_of_staged {r : RunInput} {rows : List Dedup.DeliveryLogRow}
    (h : (run r rows).staged.checkpoint.isSome = true) :
    r.EntersLoop rows ∧ r.stream.StagesReturn (r.batch rows) := by
  obtain ⟨hcompleted, -, -⟩ := (run_staged_iff r rows).mp h
  have hreach := (r.body_spec rows).1.mp hcompleted.2
  exact ⟨⟨hcompleted.1, hreach.entry, hreach.source, hreach.batch_ne, hreach.delivers,
    hreach.shared⟩, hreach.stages⟩

/-- Once the checkpoint has moved past a batch, the events a quarantine withheld from a route
are in a row of that route, which is committed with the checkpoint. -/
theorem quarantined_retained (r : RunInput) (rows : List Dedup.DeliveryLogRow) (x : RouteRun)
    (c : PolicyCall) (classify : List Event → Except RunError (List Event))
    (handed events : List Event)
    (hx : (x, handed) ∈ r.stream.policyInputs (r.batch rows) r.stream.routes {})
    (hpolicy : x.policy = c.answer classify) (he : classify handed = .ok events)
    (hpreview : c.previewOnly = false) (hq : (c.decision events).1 = .quarantine)
    (hlen : events.length ≤ maxQuarantineEvents)
    (hstaged : (run r rows).staged.checkpoint.isSome = true) :
    ∀ e ∈ events, Retained c events e ∧
      ((run r rows).flushed.isSome = true → Held r rows c.routeId e) := by
  intro e hmem
  have hev : events ≠ [] := List.ne_nil_of_mem hmem
  obtain ⟨henters, hstages⟩ := stages_of_staged hstaged
  obtain ⟨hrow, herr⟩ := PolicyCall.routePolicyStage_quarantine hq hev hpreview
  obtain ⟨checkpointEvents, hout⟩ := RunStream.stageOutcomes_of_policyInputs _ _ hx
  rw [hpolicy, PolicyCall.answer_eq he] at hout
  have hinsert : c.insertSucceeds = true := by
    by_contra hfails
    obtain ⟨p, hp⟩ := hstages _ hout
    simp [herr (by simpa using hfails), Except.map] at hp
  obtain ⟨out, row, hstage, hinserted, hid, hpayload⟩ := hrow hinsert
  rw [hstage] at hout
  rw [List.take_of_length_le hlen] at hpayload
  have hin : e ∈ row.protectedPayload := by
    rw [hpayload]
    exact hmem
  have hrelease : Releasable (storedRow row) c.routeId := by
    rw [← hid]
    apply releasable_storedRow
    rw [hpayload]
    exact hev
  refine ⟨⟨out, row, hstage, hinserted, hid, hin, hrelease⟩, fun hflushed => ?_⟩
  have hkept := (henters.mem_quarantineRows_iff hout hinserted).mpr (.inr (.inl hflushed))
  exact ⟨row, hkept, hid, hin, hrelease⟩

/-- Events with an email address, which the default of the stream withholds from route 10 while
route 11 delivers them. -/
def emailCall (behavior : String) : PolicyCall where
  streamId := 1
  routeId := 10
  destinationId := 3
  streamRules := [{ name := "pii", conditionJson := [("sensitivity_class", .str "pii")] }]
  governance := [{ defaultDeliveryBehavior := some behavior }]
  findings := [⟨"$.email", "pii"⟩]

def emailRoute (behavior : String) : RouteRun where
  row := { id := 10 }
  policy := (emailCall behavior).answer .ok

def emailRun (behavior : String) : RunInput where
  stream :=
    { ref := { id := 1 }
      routes := [emailRoute behavior, { row := { id := 11, destination := { id := some 6 } } }]
      routeIds := by simp [emailRoute]
      engines := plainEngines }
  fetched := .ok [[("email", .str "a@example.com")]]

theorem emailRun_retained :
    Retained (emailCall "quarantine") [[("email", .str "a@example.com")]]
        [("email", .str "a@example.com")] ∧
      Held (emailRun "quarantine") [] 10 [("email", .str "a@example.com")] := by
  have h := quarantined_retained (emailRun "quarantine") [] (emailRoute "quarantine")
    (emailCall "quarantine") .ok [[("email", .str "a@example.com")]] _ List.mem_cons_self rfl rfl rfl
    (by decide +kernel) (by decide) (by decide +kernel) _ List.mem_cons_self
  exact ⟨h.1, h.2 (by decide +kernel)⟩

/-- A batch held for review leaves no row, and the sibling moves the checkpoint past it. -/
theorem emailRun_review_lost :
    ((emailCall "require_review").decision [[("email", .str "a@example.com")]]).1 = .requireReview ∧
      (run (emailRun "require_review") []).staged.checkpoint.isSome = true ∧
      ¬ Retained (emailCall "require_review") [[("email", .str "a@example.com")]]
        [("email", .str "a@example.com")] := by
  refine ⟨by decide +kernel, by decide +kernel, ?_⟩
  rintro ⟨out, row, hout, hrow, -, -, -⟩
  have hnone : ((emailCall "require_review").routePolicyStage
      [[("email", .str "a@example.com")]]).toOption.bind (·.quarantineRow) = none := by
    decide +kernel
  rw [hout] at hnone
  simp [Except.toOption, hrow] at hnone

end Quarantine
