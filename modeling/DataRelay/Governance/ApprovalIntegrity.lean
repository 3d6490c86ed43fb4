import DataRelay.Lib.Raising
import DataRelay.Lib.Steps
import DataRelay.Governance.PolicyLifecycle

/-! What an active policy owes to its approval. The approval service activates approved reviews
only; the lifecycle endpoint activates any review, and neither service ties an approval to the
text that was approved. -/
namespace Governance

/-- The review since the last submission: approved, and not refused. -/
def LatestCycleApproved (events : List ApprovalEvent) : Prop :=
  ∃ before submit cycle, events = before ++ submit :: cycle ∧ submit.eventType = .submitted ∧
    (∀ e ∈ cycle, e.eventType ≠ .submitted) ∧ (∃ e ∈ cycle, e.eventType = .approved) ∧
    ∀ e ∈ cycle, e.eventType ∉ refusingEvents

inductive Service where
  | lifecycle
  | approval
  deriving DecidableEq, Repr

/-- The store, with what the run has done to it: the `policy_json` at the last approval, whether
one was written since, the `policy_json` at the activation, and the service that activated. -/
structure Tracked where
  store : Store := {}
  approvedJson : Option Json := none
  edited : Bool := false
  activatedJson : Option Json := none
  activatedBy : Option Service := none

def Store.json (store : Store) : Option Json := store.policy.map (·.policyJson)

/-- The run's record after a request that led to `store`. -/
def note (request : Request) (store : Store) (t : Tracked) : Tracked :=
  match request with
  | .approve _ => { t with store := store, approvedJson := store.json, edited := false }
  | .update body => { t with store := store, edited := t.edited || body.policyJson.isSome }
  | .activate =>
    { t with store := store, activatedJson := store.json, activatedBy := some .lifecycle }
  | .activateApproved _ =>
    { t with store := store, activatedJson := store.json, activatedBy := some .approval }
  | _ => { t with store := store }

/-- A request, rolled back when it raises. -/
def step (repr : Json → String) (t : Tracked) (request : Request × ℤ) : Tracked :=
  match handle repr request.1 request.2 t.store with
  | .error _ => t
  | .ok store => note request.1 store t

/-! ### The operations -/

variable {repr : Json → String}

theorem updateLabels_keeps {row row' : GovernancePolicy} {body : PolicyUpdate}
    (h : updateLabels repr row body = .ok row') :
    row'.status = row.status ∧ row'.policyJson = row.policyJson := by
  obtain ⟨name, -, h⟩ := Raising.bind_eq_ok h
  obtain ⟨category, -, h⟩ := Raising.bind_eq_ok h
  obtain rfl := Except.ok.inj h
  exact ⟨rfl, rfl⟩

theorem updatePolicyJson_keeps {row row' : GovernancePolicy} {json : Option Json}
    (h : updatePolicyJson repr row json = .ok row') :
    row'.status = row.status ∧
      (json = none ∨ row.status = .active → row'.policyJson = row.policyJson) := by
  unfold updatePolicyJson at h
  split at h
  · obtain rfl := Except.ok.inj h
    exact ⟨rfl, fun _ => rfl⟩
  · split_ifs at h with hstatus
    obtain ⟨-, -, h⟩ := Raising.bind_eq_ok h
    obtain rfl := Except.ok.inj h
    refine ⟨rfl, ?_⟩
    rintro (hnone | hactive)
    · cases hnone
    · exact absurd (.inl hactive) hstatus

/-- An update keeps the status, and the `policy_json` too unless it writes it; it does not write
it while the policy is active. -/
theorem updateGovernancePolicy_keeps {row row' : GovernancePolicy} {body : PolicyUpdate}
    (h : updateGovernancePolicy repr row body = .ok row') :
    row'.status = row.status ∧
      (body.policyJson = none ∨ row.status = .active → row'.policyJson = row.policyJson) := by
  unfold updateGovernancePolicy at h
  split_ifs at h
  obtain ⟨labelled, hlabels, h⟩ := Raising.bind_eq_ok h
  obtain ⟨-, -, h⟩ := Raising.bind_eq_ok h
  obtain ⟨hstatus, hjson⟩ := updateLabels_keeps hlabels
  obtain ⟨hstatus', hjson'⟩ := updatePolicyJson_keeps h
  rw [hstatus] at hstatus' hjson'
  rw [hjson] at hjson'
  exact ⟨hstatus', hjson'⟩

theorem transitionPolicyStatus_ok {now : ℤ} {target : PolicyStatus} {row row' : GovernancePolicy}
    (h : transitionPolicyStatus now target row = .ok row') :
    row'.status = target ∧ row'.policyJson = row.policyJson := by
  unfold transitionPolicyStatus at h
  by_cases hnext : row.status.next = some target
  · rw [if_pos hnext] at h
    obtain rfl := Except.ok.inj h
    exact ⟨rfl, rfl⟩
  · rw [if_neg hnext] at h
    cases h

theorem exists_recordEvent (eventType : ApprovalEventType) (actor : String)
    (comment : Option String) (now : ℤ) (events : List ApprovalEvent) :
    ∃ a e b, events = a ++ b ∧ recordEvent eventType actor comment now events = a ++ e :: b ∧
      e.eventType = eventType :=
  ⟨_, _, _, (List.takeWhile_append_dropWhile).symm, rfl, rfl⟩

theorem submitPolicyApproval_ok {now : ℤ} {action : Action} {store store' : Store}
    {row : GovernancePolicy} (h : submitPolicyApproval now action store row = .ok store') :
    ∃ row', submitPolicyForReview now row = .ok row' ∧
      store' = ⟨some row', recordEvent .submitted action.actor action.comment now store.events⟩ := by
  unfold submitPolicyApproval at h
  cases hstatus : row.status with
  | draft =>
    rw [hstatus] at h
    obtain ⟨row', hrow', h⟩ := Raising.bind_eq_ok h
    exact ⟨row', hrow', (Except.ok.inj h).symm⟩
  | _ =>
    rw [hstatus] at h
    cases h

theorem approvePolicy_ok {now : ℤ} {action : Action} {store store' : Store}
    {row : GovernancePolicy} (h : approvePolicy now action store row = .ok store') :
    row.status = .review ∧
      store' = ⟨some row, recordEvent .approved action.actor action.comment now store.events⟩ := by
  unfold approvePolicy at h
  cases hstatus : row.status with
  | review =>
    rw [hstatus] at h
    exact ⟨rfl, (Except.ok.inj h).symm⟩
  | _ =>
    rw [hstatus] at h
    cases h

theorem rejectPolicy_ok {now : ℤ} {requestChanges : Bool} {action : Action}
    {store store' : Store} {row : GovernancePolicy}
    (h : rejectPolicy now requestChanges action store row = .ok store') :
    ∃ eventType, eventType ∈ refusingEvents ∧ store' = ⟨some { row with status := .draft },
      recordEvent eventType action.actor action.comment now store.events⟩ := by
  unfold rejectPolicy at h
  cases hstatus : row.status with
  | review =>
    rw [hstatus] at h
    obtain ⟨row', hrow', h⟩ := Raising.bind_eq_ok h
    rw [revertPolicyToDraft, if_pos hstatus] at hrow'
    obtain rfl := Except.ok.inj hrow'
    refine ⟨if requestChanges then .requestChanges else .rejected, ?_, (Except.ok.inj h).symm⟩
    cases requestChanges <;> decide
  | _ =>
    rw [hstatus] at h
    cases h

theorem activateApprovedPolicy_ok {now : ℤ} {action : Action} {store store' : Store}
    {row : GovernancePolicy} (h : activateApprovedPolicy now action store row = .ok store') :
    isApprovedCycle store.events = true ∧ ∃ row', activatePolicy now row = .ok row' ∧
      store' = ⟨some row', recordEvent .activated action.actor action.comment now store.events⟩ := by
  unfold activateApprovedPolicy at h
  cases hstatus : row.status with
  | review =>
    rw [hstatus] at h
    dsimp only at h
    split_ifs at h with hcycle
    obtain ⟨row', hrow', h⟩ := Raising.bind_eq_ok h
    exact ⟨hcycle, row', hrow', (Except.ok.inj h).symm⟩
  | _ =>
    rw [hstatus] at h
    cases h

/-! ### The approved cycle -/

theorem not_submitted_of_none {events : List ApprovalEvent} (h : latestSubmitIndex events = none) :
    ∀ e ∈ events, e.eventType ≠ .submitted := by
  induction events with
  | nil => simp
  | cons e es ih =>
    unfold latestSubmitIndex at h
    cases hrest : latestSubmitIndex es with
    | some i => simp [hrest] at h
    | none =>
      have he : e.eventType ≠ .submitted := by simpa [hrest] using h
      intro x hx
      rcases List.mem_cons.mp hx with rfl | hmem
      · exact he
      · exact ih hrest x hmem

/-- The last submission, and the events of its cycle. -/
theorem exists_latestSubmit {events : List ApprovalEvent} {idx : ℕ}
    (h : latestSubmitIndex events = some idx) :
    ∃ submit cycle, events.drop idx = submit :: cycle ∧ submit.eventType = .submitted ∧
      ∀ e ∈ cycle, e.eventType ≠ .submitted := by
  induction events generalizing idx with
  | nil => cases h
  | cons e es ih =>
    unfold latestSubmitIndex at h
    cases hrest : latestSubmitIndex es with
    | some i =>
      rw [hrest] at h
      obtain rfl := Option.some.inj h
      exact ih hrest
    | none =>
      rw [hrest] at h
      simp only at h
      split_ifs at h with he
      obtain rfl := Option.some.inj h
      exact ⟨e, es, rfl, he, not_submitted_of_none hrest⟩

theorem latestCycleApproved_of_isApprovedCycle {events : List ApprovalEvent}
    (h : isApprovedCycle events = true) : LatestCycleApproved events := by
  unfold isApprovedCycle at h
  split at h
  · cases h
  · next idx hidx =>
    obtain ⟨submit, cycle, hcycle, hsubmit, hlast⟩ := exists_latestSubmit hidx
    rw [hcycle] at h
    dsimp only at h
    have hevents : events = events.take idx ++ submit :: cycle := by
      rw [← hcycle, List.take_append_drop]
    split_ifs at h with hrefused
    refine ⟨events.take idx, submit, cycle, hevents, hsubmit, hlast, ?_, ?_⟩
    · obtain ⟨e, he, happroved⟩ := List.any_eq_true.mp h
      rcases List.mem_cons.mp he with rfl | hmem
      · simp [hsubmit] at happroved
      · exact ⟨e, hmem, by simpa using happroved⟩
    · intro e he hrefusing
      apply hrefused
      rw [Bool.and_eq_true, List.any_eq_true, List.any_eq_true]
      refine ⟨⟨e, List.mem_cons_of_mem submit he, ?_⟩, e, List.mem_cons_of_mem submit he, ?_⟩
      · simp only [refusingEvents, List.mem_cons, List.not_mem_nil, or_false] at hrefusing
        rcases hrefusing with h' | h' | h' <;> simp [h', terminalReviewEvents]
      · simpa using hrefusing

/-- An activation on record, right before the submission or in the cycle, does not change the review
before it. -/
theorem LatestCycleApproved.insert {a b : List ApprovalEvent} {e : ApprovalEvent}
    (h : LatestCycleApproved (a ++ b)) (he : e.eventType = .activated) :
    LatestCycleApproved (a ++ e :: b) := by
  obtain ⟨before, submit, cycle, hab, hsubmit, hlast, ⟨x, hx, happroved⟩, hkept⟩ := h
  have hnew : e.eventType ≠ .submitted ∧ e.eventType ∉ refusingEvents := by
    rw [he]
    decide
  rw [List.append_eq_append_iff] at hab
  rcases hab with ⟨c, hbefore, hb⟩ | ⟨c, ha, hrest⟩
  · cases c with
    | nil =>
      rw [List.append_nil] at hbefore
      rw [List.nil_append] at hb
      exact ⟨a ++ [e], submit, cycle, by rw [hb]; simp, hsubmit, hlast, ⟨x, hx, happroved⟩, hkept⟩
    | cons d c =>
      refine ⟨a ++ e :: d :: c, submit, cycle, ?_, hsubmit, hlast, ⟨x, hx, happroved⟩, hkept⟩
      rw [hb]
      simp
  · cases c with
    | nil =>
      rw [List.append_nil] at ha
      rw [List.nil_append] at hrest
      refine ⟨a ++ [e], submit, cycle, ?_, hsubmit, hlast, ⟨x, hx, happroved⟩, hkept⟩
      rw [← hrest]
      simp
    | cons d c =>
      obtain ⟨rfl, rfl⟩ := List.cons.inj hrest
      refine ⟨before, submit, c ++ e :: b, by rw [ha]; simp, hsubmit, ?_,
        ⟨x, ?_, happroved⟩, ?_⟩
      · intro y hy
        rw [List.mem_append, List.mem_cons] at hy
        rcases hy with hy | rfl | hy
        · exact hlast y (List.mem_append_left b hy)
        · exact hnew.1
        · exact hlast y (List.mem_append_right c hy)
      · rcases List.mem_append.mp hx with hx | hx
        · exact List.mem_append_left _ hx
        · exact List.mem_append_right c (List.mem_cons_of_mem e hx)
      · intro y hy
        rw [List.mem_append, List.mem_cons] at hy
        rcases hy with hy | rfl | hy
        · exact hkept y (List.mem_append_left b hy)
        · exact hnew.2
        · exact hkept y (List.mem_append_right c hy)

/-! ### Runs -/

/-- What holds of an active policy: its `policy_json` is the one it was activated with; and if
the approval service activated it, the latest review was approved, and the `policy_json` is the
approved one unless it was written between the approval and the activation. -/
structure IntactRow (t : Tracked) (row : GovernancePolicy) : Prop where
  frozen : t.activatedJson = some row.policyJson
  reviewed : t.activatedBy = some .approval → LatestCycleApproved t.store.events
  approved : t.activatedBy = some .approval → t.edited = false →
    t.approvedJson = some row.policyJson

def Intact (t : Tracked) : Prop :=
  ∀ row, t.store.policy = some row → row.status = .active → IntactRow t row

/-- The run's record: an approval on record has a `policy_json`, which is the current one until
another is written. -/
structure Inv (t : Tracked) : Prop where
  onRecord : (∃ e ∈ t.store.events, e.eventType = .approved) → t.approvedJson ≠ none
  current : ∀ json, t.approvedJson = some json → t.edited = false → t.store.json = some json
  intact : Intact t

theorem inv_init : Inv {} where
  onRecord := by simp
  current := by simp
  intact := by
    intro row hrow
    cases hrow

theorem LatestCycleApproved.exists_approved {events : List ApprovalEvent}
    (h : LatestCycleApproved events) : ∃ e ∈ events, e.eventType = .approved := by
  obtain ⟨before, submit, cycle, rfl, -, -, ⟨e, he, happroved⟩, -⟩ := h
  exact ⟨e, by simp [he], happroved⟩

/-- A step that approves nothing and writes no `policy_json` keeps the record. -/
theorem Inv.carry {t t' : Tracked} (h : Inv t) (happroved : t'.approvedJson = t.approvedJson)
    (hevents : (∃ e ∈ t'.store.events, e.eventType = .approved) →
      ∃ e ∈ t.store.events, e.eventType = .approved)
    (hjson : t'.edited = false → t.edited = false ∧ t'.store.json = t.store.json)
    (hintact : Intact t') : Inv t' where
  onRecord hsome := by
    rw [happroved]
    exact h.onRecord (hevents hsome)
  current json hj hedited := by
    obtain ⟨hold, hsame⟩ := hjson hedited
    rw [hsame]
    exact h.current json (happroved ▸ hj) hold
  intact := hintact

theorem exists_approved_of_recordEvent {eventType : ApprovalEventType} {actor : String}
    {comment : Option String} {now : ℤ} {events : List ApprovalEvent}
    (htype : eventType ≠ .approved)
    (h : ∃ e ∈ recordEvent eventType actor comment now events, e.eventType = .approved) :
    ∃ e ∈ events, e.eventType = .approved := by
  obtain ⟨a, x, b, hevents, hrecord, hx⟩ := exists_recordEvent eventType actor comment now events
  obtain ⟨e, he, happroved⟩ := h
  rw [hrecord, List.mem_append, List.mem_cons] at he
  rw [hevents]
  rcases he with he | rfl | he
  · exact ⟨e, List.mem_append_left b he, happroved⟩
  · exact absurd (hx.symm.trans happroved) htype
  · exact ⟨e, List.mem_append_right a he, happroved⟩

theorem intact_of_status {t : Tracked} {row : GovernancePolicy} (hrow : t.store.policy = some row)
    (hstatus : row.status ≠ .active) : Intact t := by
  intro row' hrow' hactive
  rw [hrow] at hrow'
  obtain rfl := Option.some.inj hrow'
  exact absurd hactive hstatus

theorem onPolicy_ok {store store' : Store} {f : GovernancePolicy → Except GovernanceError Store}
    (h : onPolicy store f = .ok store') : ∃ row, store.policy = some row ∧ f row = .ok store' := by
  unfold onPolicy at h
  split at h
  · cases h
  · next row hrow => exact ⟨row, hrow, h⟩

theorem onRow_ok {store store' : Store}
    {f : GovernancePolicy → Except GovernanceError GovernancePolicy}
    (h : onRow store f = .ok store') :
    ∃ row row', store.policy = some row ∧ f row = .ok row' ∧ store' = ⟨some row', store.events⟩ := by
  obtain ⟨row, hrow, h⟩ := onPolicy_ok h
  obtain ⟨row', hrow', rfl⟩ := Raising.map_eq_ok h
  exact ⟨row, row', hrow, hrow', rfl⟩

theorem json_eq {store : Store} {row : GovernancePolicy} (h : store.policy = some row) :
    store.json = some row.policyJson := by
  rw [Store.json, h]
  rfl

variable {t : Tracked} {store : Store} {now : ℤ}

theorem Inv.create (h : Inv t) {body : PolicyCreate}
    (hok : handle repr (.create body) now t.store = .ok store) :
    Inv (note (.create body) store t) := by
  unfold handle at hok
  cases hpolicy : t.store.policy with
  | some row =>
    rw [hpolicy] at hok
    obtain rfl := Except.ok.inj hok
    exact h
  | none =>
    rw [hpolicy] at hok
    obtain ⟨row, hrow, rfl⟩ := Raising.map_eq_ok hok
    have hdraft : row.status = .draft := by
      obtain ⟨label, -, hrow⟩ := Raising.bind_eq_ok hrow
      obtain ⟨-, -, hrow⟩ := Raising.bind_eq_ok hrow
      split_ifs at hrow
      obtain ⟨-, -, hrow⟩ := Raising.bind_eq_ok hrow
      obtain rfl := Except.ok.inj hrow
      rfl
    refine ⟨by simp [note], ?_, intact_of_status rfl (by rw [hdraft]; decide)⟩
    intro json hj hedited
    have hjson := h.current json hj hedited
    rw [Store.json, hpolicy] at hjson
    cases hjson

theorem Inv.update (h : Inv t) {body : PolicyUpdate}
    (hok : handle repr (.update body) now t.store = .ok store) :
    Inv (note (.update body) store t) := by
  obtain ⟨row, row', hrow, hrow', rfl⟩ := onRow_ok hok
  obtain ⟨hstatus, hjson⟩ := updateGovernancePolicy_keeps hrow'
  have hedit : (t.edited || body.policyJson.isSome) = false →
      t.edited = false ∧ row'.policyJson = row.policyJson := by
    intro hedited
    rw [Bool.or_eq_false_iff] at hedited
    refine ⟨hedited.1, hjson (.inl ?_)⟩
    simpa using hedited.2
  refine h.carry rfl id ?_ ?_
  · intro hedited
    obtain ⟨hold, hsame⟩ := hedit hedited
    refine ⟨hold, ?_⟩
    rw [json_eq hrow, ← hsame]
    rfl
  · intro row'' hrow'' hactive
    obtain rfl := Option.some.inj hrow''
    rw [hstatus] at hactive
    have hrowIntact := h.intact row hrow hactive
    have hsame := hjson (.inr hactive)
    refine ⟨?_, hrowIntact.reviewed, ?_⟩
    · rw [hsame]
      exact hrowIntact.frozen
    · intro hservice hedited
      rw [hsame]
      exact hrowIntact.approved hservice (hedit hedited).1

/-- A lifecycle transition other than the activation. -/
theorem Inv.transition (h : Inv t) {target : PolicyStatus} (htarget : target ≠ .active)
    (hok : onRow t.store (transitionPolicyStatus now target) = .ok store) :
    Inv { t with store := store } := by
  obtain ⟨row, row', hrow, hrow', rfl⟩ := onRow_ok hok
  obtain ⟨hstatus, hjson⟩ := transitionPolicyStatus_ok hrow'
  refine h.carry rfl id ?_ (intact_of_status rfl (by rw [hstatus]; exact htarget))
  intro hedited
  refine ⟨hedited, ?_⟩
  rw [json_eq hrow, ← hjson]
  rfl

theorem Inv.activate (h : Inv t) (hok : handle repr .activate now t.store = .ok store) :
    Inv (note .activate store t) := by
  obtain ⟨row, row', hrow, hrow', rfl⟩ := onRow_ok hok
  obtain ⟨-, hjson⟩ := transitionPolicyStatus_ok hrow'
  refine h.carry rfl id ?_ ?_
  · intro hedited
    refine ⟨hedited, ?_⟩
    rw [json_eq hrow, ← hjson]
    rfl
  · intro row'' hrow'' _
    obtain rfl := Option.some.inj hrow''
    refine ⟨rfl, ?_, ?_⟩
    · intro hservice
      cases hservice
    · intro hservice
      cases hservice

theorem Inv.submitApproval (h : Inv t) {action : Action}
    (hok : handle repr (.submitApproval action) now t.store = .ok store) :
    Inv (note (.submitApproval action) store t) := by
  obtain ⟨row, hrow, hok⟩ := onPolicy_ok hok
  obtain ⟨row', hrow', rfl⟩ := submitPolicyApproval_ok hok
  obtain ⟨hstatus, hjson⟩ := transitionPolicyStatus_ok hrow'
  refine h.carry rfl (exists_approved_of_recordEvent (by decide)) ?_
    (intact_of_status rfl (by rw [hstatus]; decide))
  intro hedited
  refine ⟨hedited, ?_⟩
  rw [json_eq hrow, ← hjson]
  rfl

theorem Inv.approve {action : Action}
    (hok : handle repr (.approve action) now t.store = .ok store) :
    Inv (note (.approve action) store t) := by
  obtain ⟨row, hrow, hok⟩ := onPolicy_ok hok
  obtain ⟨hreview, rfl⟩ := approvePolicy_ok hok
  refine ⟨?_, ?_, intact_of_status rfl (by rw [hreview]; decide)⟩
  · intro _ hnone
    cases hnone
  · intro json hj _
    exact hj

theorem Inv.reject (h : Inv t) {requestChanges : Bool} {action : Action}
    (hok : handle repr (.reject requestChanges action) now t.store = .ok store) :
    Inv (note (.reject requestChanges action) store t) := by
  obtain ⟨row, hrow, hok⟩ := onPolicy_ok hok
  obtain ⟨eventType, htype, rfl⟩ := rejectPolicy_ok hok
  have hother : eventType ≠ .approved := by
    rintro rfl
    exact absurd htype (by decide)
  refine h.carry rfl (exists_approved_of_recordEvent hother) ?_ (intact_of_status rfl ?_)
  · intro hedited
    refine ⟨hedited, ?_⟩
    rw [json_eq hrow]
    rfl
  · intro hactive
    cases hactive

theorem Inv.activateApproved (h : Inv t) {action : Action}
    (hok : handle repr (.activateApproved action) now t.store = .ok store) :
    Inv (note (.activateApproved action) store t) := by
  obtain ⟨row, hrow, hok⟩ := onPolicy_ok hok
  obtain ⟨hcycle, row', hrow', rfl⟩ := activateApprovedPolicy_ok hok
  obtain ⟨-, hjson⟩ := transitionPolicyStatus_ok hrow'
  have hreviewed := latestCycleApproved_of_isApprovedCycle hcycle
  obtain ⟨a, e, b, hevents, hrecord, he⟩ :=
    exists_recordEvent .activated action.actor action.comment now t.store.events
  refine h.carry rfl (exists_approved_of_recordEvent (by decide)) ?_ ?_
  · intro hedited
    refine ⟨hedited, ?_⟩
    rw [json_eq hrow, ← hjson]
    rfl
  · intro row'' hrow'' _
    obtain rfl := Option.some.inj hrow''
    refine ⟨rfl, ?_, ?_⟩
    · intro _
      show LatestCycleApproved (recordEvent .activated action.actor action.comment now t.store.events)
      rw [hevents] at hreviewed
      rw [hrecord]
      exact hreviewed.insert he
    · intro _ hedited
      have hsome := h.onRecord hreviewed.exists_approved
      obtain ⟨json, hj⟩ := Option.ne_none_iff_exists'.mp hsome
      have hcurrent := h.current json hj hedited
      rw [json_eq hrow] at hcurrent
      show t.approvedJson = some row'.policyJson
      rw [hj, hjson, ← hcurrent]

theorem inv_step (h : Inv t) (request : Request × ℤ) : Inv (step repr t request) := by
  obtain ⟨request, now⟩ := request
  unfold step
  cases hok : handle repr request now t.store with
  | error e => exact h
  | ok store =>
    cases request with
    | create body => exact h.create hok
    | update body => exact h.update hok
    | submitReview => exact h.transition (by decide) hok
    | activate => exact h.activate hok
    | retire => exact h.transition (by decide) hok
    | submitApproval action => exact h.submitApproval hok
    | approve action => exact Inv.approve hok
    | reject requestChanges action => exact h.reject hok
    | activateApproved action => exact h.activateApproved hok

/-- After every sequence of requests an active policy is intact. -/
theorem intact_run (repr : Json → String) (requests : List (Request × ℤ)) :
    Intact (Steps.run (step repr) {} requests) := by
  have hall : Steps.Along (step repr) (fun _ _ => True) ({} : Tracked) requests :=
    Steps.along_of_forall (fun _ _ => trivial) _ requests
  have hstep : ∀ (t : Tracked) (request : Request × ℤ), Inv t → True → Inv (step repr t request) :=
    fun _ request h _ => inv_step h request
  have hrun := Steps.run_invariant hstep inv_init hall
  exact hrun.intact

/-! ### A policy nobody approved, and one that was changed -/

/-- What is asked of an active policy: a latest review that was approved, and the approved
`policy_json`. -/
def ActiveAsApproved (t : Tracked) : Prop :=
  ∀ row, t.store.policy = some row → row.status = .active →
    LatestCycleApproved t.store.events ∧ t.approvedJson = some row.policyJson

def maskPolicy (value : String) : Json := .obj [
  ("conditions", .arr [.obj [("field", .str "classification"), ("operator", .str "equals"),
    ("value", .str value)]]),
  ("actions", .arr [.obj [("type", .str "mask")]])]

def createMask : Request := .create {
  name := "Mask", category := "DATA_PROTECTION", policyJson := maskPolicy "secret" }

def operator : Action := { actor := "op" }

/-- Submitted and activated through the lifecycle endpoints. -/
def unapprovedRun : List (Request × ℤ) := [(createMask, 1), (.submitReview, 2), (.activate, 3)]

/-- Approved, rewritten in review, and activated through the approval service. -/
def rewrittenRun : List (Request × ℤ) := [(createMask, 1), (.submitApproval operator, 2),
  (.approve operator, 3), (.update { policyJson := some (maskPolicy "public") }, 4),
  (.activateApproved operator, 5)]

/-- Both runs end with an active policy that is not as approved. -/
theorem active_unapproved :
    ¬ ActiveAsApproved (Steps.run (step fun _ => "") {} unapprovedRun) ∧
      ¬ ActiveAsApproved (Steps.run (step fun _ => "") {} rewrittenRun) := by
  constructor
  · intro h
    have hrow : (Steps.run (step fun _ => "") {} unapprovedRun).store.policy = some {
        name := "Mask", category := "DATA_PROTECTION", status := .active
        policyJson := maskPolicy "secret", activatedAt := some 3 } := by rfl
    obtain ⟨-, hjson⟩ := h _ hrow rfl
    exact absurd hjson (by decide +kernel)
  · intro h
    have hrow : (Steps.run (step fun _ => "") {} rewrittenRun).store.policy = some {
        name := "Mask", category := "DATA_PROTECTION", status := .active
        policyJson := maskPolicy "public", version := 2, activatedAt := some 5 } := by
      rfl
    obtain ⟨-, hjson⟩ := h _ hrow rfl
    exact absurd hjson (by decide +kernel)

/-- Submitted, approved and activated through the approval service. -/
def approvedRun : List (Request × ℤ) := [(createMask, 1), (.submitApproval operator, 2),
  (.approve operator, 3), (.activateApproved operator, 4)]

theorem approvedRun_intact :
    (∃ row, (Steps.run (step fun _ => "") {} approvedRun).store.policy = some row ∧
        row.status = .active) ∧
      (Steps.run (step fun _ => "") {} approvedRun).activatedBy = some .approval ∧
      Intact (Steps.run (step fun _ => "") {} approvedRun) := by
  refine ⟨⟨{
    name := "Mask", category := "DATA_PROTECTION", status := .active
    policyJson := maskPolicy "secret", activatedAt := some 4 }, by rfl, rfl⟩,
    by rfl, intact_run (fun _ => "") approvedRun⟩

end Governance
