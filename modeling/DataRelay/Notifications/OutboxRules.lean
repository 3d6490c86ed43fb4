import DataRelay.Notifications.Outbox

/-! The invariant of the outbox tables, what a commit may do to them, and how a transaction that
has not committed yet stands to both. -/
namespace Notifications
open ReadCommitted

def JobStatus.terminal : JobStatus → Bool
  | .sent => true
  | .dead => true
  | .pending => false
  | .leased => false

/-- What a job's status says about its event. -/
def JobStatus.standing : JobStatus → EventStatus
  | .pending => .pending
  | .leased => .pending
  | .sent => .sent
  | .dead => .failed

/-- The claims of a job the log has. -/
def claimsOf (id : ℕ) (log : List Entry) : ℕ :=
  log.countP fun
    | .claimed jobId _ _ => jobId = id
    | _ => false

def HasJob (eventId : ℕ) (rows : Rows) : Prop :=
  ∃ id job, jobAt id rows = some job ∧ job.eventId = eventId

def AllSent (eventId : ℕ) (rows : Rows) : Prop :=
  ∀ id job, jobAt id rows = some job → job.eventId = eventId → job.status = .sent

def SomeDead (eventId : ℕ) (rows : Rows) : Prop :=
  ∃ id job, jobAt id rows = some job ∧ job.eventId = eventId ∧ job.status = .dead

/-- The status of an event is what its jobs say. -/
structure Agrees (event : Event) (eventId : ℕ) (rows : Rows) : Prop where
  sent : event.status = .sent ↔ AllSent eventId rows
  failed : event.status = .failed ↔ SomeDead eventId rows
  pending : event.status = .pending ↔ ¬ AllSent eventId rows ∧ ¬ SomeDead eventId rows

/-- A worker presented the token of the job's lease. -/
def Presented (entries : List Entry) (id : ℕ) (job : Job) : Prop :=
  ∃ token, .completed id token ∈ entries ∧ job.leaseToken = some token

/-- A claim found the job's lease expired. -/
def TakenOver (entries : List Entry) (id : ℕ) (job : Job) : Prop :=
  ∃ now expires, ((∃ token, .claimed id token now ∈ entries) ∨ .expired id now ∈ entries) ∧
    job.leaseExpiresAt = some expires ∧ expires ≤ now

/-- What the entries of a commit say of a job it changed. -/
structure Moved (entries : List Entry) (id : ℕ) (job : Job) : Prop where
  nonterminal : job.status.terminal = false
  leased : job.status = .leased → Presented entries id job ∨ TakenOver entries id job

def attemptsAt (id : ℕ) (rows : Rows) : ℕ := (jobAt id rows).elim 0 (·.attemptCount)

/-- What the jobs of an event say, job by job. -/
def signature (eventId : ℕ) (rows : Rows) (id : ℕ) : Option EventStatus :=
  (jobAt id rows).bind fun job => if job.eventId = eventId then some job.status.standing else none

structure Inv (c : Committed Key Row Entry) : Prop where
  nodup : (c.rows.map Prod.fst).Nodup
  parents : ∀ id job, jobAt id c.rows = some job → ∃ event, eventAt job.eventId c.rows = some event
  agrees : ∀ eventId event, eventAt eventId c.rows = some event → HasJob eventId c.rows →
    Agrees event eventId c.rows
  attempts : ∀ id, claimsOf id c.log ≤ attemptsAt id c.rows
  bounded : ∀ id job, jobAt id c.rows = some job → job.attemptCount ≤ maxAttempts

structure Guarantee (locks : List Key) (c d : Committed Key Row Entry) : Prop where
  jobs : ∃ entries, d.log = c.log ++ entries ∧ ∀ id job, jobAt id c.rows = some job →
    jobAt id d.rows = some job ∨ Moved entries id job
  signature : ∀ eventId, .event eventId ∉ locks →
    signature eventId d.rows = signature eventId c.rows
  events : ∀ eventId event, eventAt eventId c.rows = some event →
    ∃ event', eventAt eventId d.rows = some event'

def rules : Rules Key Row Entry := { inv := Inv, guarantee := Guarantee }

/-! ### Rows -/

theorem jobAt_congr {id : ℕ} {rows rows' : Rows}
    (h : Dict.get? (.job id) rows = Dict.get? (.job id) rows') : jobAt id rows = jobAt id rows' := by
  unfold jobAt
  rw [h]

theorem eventAt_congr {id : ℕ} {rows rows' : Rows}
    (h : Dict.get? (.event id) rows = Dict.get? (.event id) rows') :
    eventAt id rows = eventAt id rows' := by
  unfold eventAt
  rw [h]

theorem jobAt_eq_some {id : ℕ} {rows : Rows} {job : Job} :
    jobAt id rows = some job ↔ Dict.get? (.job id) rows = some (.job job) := by
  unfold jobAt
  cases Dict.get? (Key.job id) rows with
  | none => simp
  | some row => cases row <;> simp

theorem eventAt_eq_some {id : ℕ} {rows : Rows} {event : Event} :
    eventAt id rows = some event ↔ Dict.get? (.event id) rows = some (.event event) := by
  unfold eventAt
  cases Dict.get? (Key.event id) rows with
  | none => simp
  | some row => cases row <;> simp

theorem mem_jobsIn {rows : Rows} {id : ℕ} {job : Job} (h : (rows.map Prod.fst).Nodup) :
    (id, job) ∈ jobsIn rows ↔ jobAt id rows = some job := by
  rw [jobAt_eq_some, ← Dict.mem_iff_get? h]
  unfold jobsIn
  rw [List.mem_filterMap]
  constructor
  · rintro ⟨⟨key, row⟩, hmem, hrow⟩
    cases key <;> cases row <;> simp at hrow
    obtain ⟨rfl, rfl⟩ := hrow
    exact hmem
  · intro hmem
    exact ⟨_, hmem, rfl⟩

theorem mem_statusesOf {rows : Rows} {eventId : ℕ} {status : JobStatus}
    (h : (rows.map Prod.fst).Nodup) :
    status ∈ statusesOf eventId rows ↔
      ∃ id job, jobAt id rows = some job ∧ job.eventId = eventId ∧ job.status = status := by
  unfold statusesOf
  simp only [List.mem_map, List.mem_filter, decide_eq_true_eq, Prod.exists, mem_jobsIn h, and_assoc]

/-! ### What the jobs of an event say -/

theorem signature_eq_some {eventId id : ℕ} {rows : Rows} {standing : EventStatus} :
    signature eventId rows id = some standing ↔
      ∃ job, jobAt id rows = some job ∧ job.eventId = eventId ∧ job.status.standing = standing := by
  unfold signature
  cases jobAt id rows with
  | none => simp
  | some job =>
    by_cases h : job.eventId = eventId
    · simp [h]
    · simp [h]

theorem hasJob_iff {eventId : ℕ} {rows : Rows} :
    HasJob eventId rows ↔ ∃ id standing, signature eventId rows id = some standing := by
  unfold HasJob
  simp only [signature_eq_some]
  constructor
  · rintro ⟨id, job, hjob, hevent⟩
    exact ⟨id, _, job, hjob, hevent, rfl⟩
  · rintro ⟨id, -, job, hjob, hevent, -⟩
    exact ⟨id, job, hjob, hevent⟩

theorem standing_eq_sent {status : JobStatus} : status.standing = .sent ↔ status = .sent := by
  cases status <;> simp [JobStatus.standing]

theorem standing_eq_failed {status : JobStatus} : status.standing = .failed ↔ status = .dead := by
  cases status <;> simp [JobStatus.standing]

theorem allSent_iff {eventId : ℕ} {rows : Rows} :
    AllSent eventId rows ↔ ∀ id standing, signature eventId rows id = some standing →
      standing = .sent := by
  unfold AllSent
  simp only [signature_eq_some]
  constructor
  · rintro h id - ⟨job, hjob, hevent, rfl⟩
    exact standing_eq_sent.mpr (h id job hjob hevent)
  · intro h id job hjob hevent
    exact standing_eq_sent.mp (h id _ ⟨job, hjob, hevent, rfl⟩)

theorem someDead_iff {eventId : ℕ} {rows : Rows} :
    SomeDead eventId rows ↔ ∃ id, signature eventId rows id = some .failed := by
  unfold SomeDead
  simp only [signature_eq_some, standing_eq_failed]

theorem hasJob_congr {eventId : ℕ} {rows rows' : Rows}
    (h : signature eventId rows = signature eventId rows') :
    HasJob eventId rows ↔ HasJob eventId rows' := by
  rw [hasJob_iff, hasJob_iff, h]

theorem agrees_congr {event : Event} {eventId : ℕ} {rows rows' : Rows}
    (h : signature eventId rows = signature eventId rows') (ha : Agrees event eventId rows) :
    Agrees event eventId rows' := by
  have hsent : AllSent eventId rows ↔ AllSent eventId rows' := by
    rw [allSent_iff, allSent_iff, h]
  have hdead : SomeDead eventId rows ↔ SomeDead eventId rows' := by
    rw [someDead_iff, someDead_iff, h]
  exact ⟨ha.sent.trans hsent, ha.failed.trans hdead, by rw [ha.pending, hsent, hdead]⟩

/-- Two of the three statuses decide the third. -/
theorem Agrees.of_closed {event : Event} {eventId : ℕ} {rows : Rows}
    (hsent : event.status = .sent ↔ AllSent eventId rows)
    (hfailed : event.status = .failed ↔ SomeDead eventId rows) : Agrees event eventId rows := by
  refine ⟨hsent, hfailed, ?_⟩
  rw [← hsent, ← hfailed]
  cases event.status <;> simp

/-- The status the statuses of its jobs give an event agrees with them: an event with a dead job is
not sent throughout. -/
theorem reconciled_agrees {rows : Rows} {eventId : ℕ} (h : (rows.map Prod.fst).Nodup)
    (hjob : HasJob eventId rows) (now : ℤ) (event : Event) :
    Agrees (reconciled (statusesOf eventId rows) now event) eventId rows := by
  have hne : statusesOf eventId rows ≠ [] := by
    obtain ⟨id, job, hjob, hevent⟩ := hjob
    exact List.ne_nil_of_mem ((mem_statusesOf h).mpr ⟨id, job, hjob, hevent, rfl⟩)
  have hall : (∀ status ∈ statusesOf eventId rows, status = .sent) ↔ AllSent eventId rows := by
    simp only [mem_statusesOf h]
    constructor
    · intro hs id job hjob hevent
      exact hs _ ⟨id, job, hjob, hevent, rfl⟩
    · rintro hs - ⟨id, job, hjob, hevent, rfl⟩
      exact hs id job hjob hevent
  have hdead : .dead ∈ statusesOf eventId rows ↔ SomeDead eventId rows := mem_statusesOf h
  have hnot : AllSent eventId rows → ¬ SomeDead eventId rows := by
    rintro hs ⟨id, job, hjob, hevent, hstatus⟩
    rw [hs id job hjob hevent] at hstatus
    cases hstatus
  unfold reconciled
  apply Agrees.of_closed
  · split_ifs with hs hd
    · simpa using hall.mp hs.2
    · simpa using fun ha => hnot ha (hdead.mp hd)
    · simpa using fun ha => hs ⟨hne, hall.mpr ha⟩
  · split_ifs with hs hd
    · simpa using hnot (hall.mp hs.2)
    · simpa using hdead.mp hd
    · simpa using fun ha => hd (hdead.mpr ha)

/-! ### Staged transactions -/

/-- A transaction before its commit. `entries` is what it says it did, `touched` has the events
one of whose jobs it closed, `settled` those it has reconciled since. -/
structure Staged (entries : List Entry) (touched settled : List ℕ) (locks : List Key)
    (ws : List (Write Key Row)) (c : Committed Key Row Entry) : Prop where
  covered : ∀ w ∈ ws, w.1 ∈ locks
  job : ∀ id, jobAt id (applyWrites ws c.rows) = jobAt id c.rows ∨
    ∃ job job', jobAt id c.rows = some job ∧ jobAt id (applyWrites ws c.rows) = some job' ∧
      Moved entries id job ∧ job'.eventId = job.eventId ∧ job'.attemptCount ≤ maxAttempts ∧
      (job'.status.standing = job.status.standing ∨ job.eventId ∈ touched)
  attempts : ∀ id, attemptsAt id (applyWrites ws c.rows) =
    attemptsAt id c.rows + claimsOf id entries
  event : ∀ eventId, eventId ∉ settled →
    eventAt eventId (applyWrites ws c.rows) = eventAt eventId c.rows
  present : ∀ eventId event, eventAt eventId c.rows = some event →
    ∃ event', eventAt eventId (applyWrites ws c.rows) = some event'
  settled : ∀ eventId ∈ settled, .event eventId ∈ locks ∧
    ∀ event, eventAt eventId (applyWrites ws c.rows) = some event →
      HasJob eventId (applyWrites ws c.rows) →
      Agrees event eventId (applyWrites ws c.rows)
  live : ∀ eventId ∈ touched, ∃ event, eventAt eventId c.rows = some event

variable {entries : List Entry} {touched settled : List ℕ} {locks : List Key}
  {ws : List (Write Key Row)} {c d : Committed Key Row Entry}

theorem Moved.mono {entries' : List Entry} {id : ℕ} {job : Job} (h : Moved entries id job)
    (hsub : ∀ e ∈ entries, e ∈ entries') : Moved entries' id job where
  nonterminal := h.nonterminal
  leased hleased := by
    rcases h.leased hleased with ⟨token, hentry, htoken⟩ | ⟨now, expires, hentry, hexpires, hle⟩
    · exact .inl ⟨token, hsub _ hentry, htoken⟩
    · refine .inr ⟨now, expires, ?_, hexpires, hle⟩
      rcases hentry with ⟨token, hentry⟩ | hentry
      · exact .inl ⟨token, hsub _ hentry⟩
      · exact .inr (hsub _ hentry)

/-- A transaction that changed no job and no event. -/
theorem Staged.of_config (hcovered : ∀ w ∈ ws, w.1 ∈ locks) (hconfig : ∀ w ∈ ws, w.1 = .config) :
    Staged [] [] [] locks ws c := by
  have hjob : ∀ id, jobAt id (applyWrites ws c.rows) = jobAt id c.rows := by
    intro id
    refine jobAt_congr (get?_applyWrites_of_forall_ne ?_ _)
    intro w hw
    simp [hconfig w hw]
  have hevent : ∀ id, eventAt id (applyWrites ws c.rows) = eventAt id c.rows := by
    intro id
    refine eventAt_congr (get?_applyWrites_of_forall_ne ?_ _)
    intro w hw
    simp [hconfig w hw]
  refine ⟨hcovered, fun id => .inl (hjob id), ?_, fun id _ => hevent id, ?_, by simp, by simp⟩
  · intro id
    simp [attemptsAt, hjob id, claimsOf]
  · intro id event h
    exact ⟨event, (hevent id).trans h⟩

theorem Staged.grow {locks' : List Key} (h : Staged entries touched settled locks ws c)
    (hsub : ∀ key ∈ locks, key ∈ locks') : Staged entries touched settled locks' ws c where
  covered w hw := hsub _ (h.covered w hw)
  job := h.job
  attempts := h.attempts
  event := h.event
  present := h.present
  settled eventId hmem := ⟨hsub _ (h.settled eventId hmem).1, (h.settled eventId hmem).2⟩
  live := h.live

/-- While an event is locked, what its jobs say stays. -/
theorem signature_of_others (h : rules.Others locks c d) {eventId : ℕ}
    (hlock : .event eventId ∈ locks) : signature eventId d.rows = signature eventId c.rows := by
  refine h.keeps (P := fun b => signature eventId b.rows = signature eventId c.rows) ?_ rfl
  intro held b b' hdisjoint _ hguarantee hb
  rw [hguarantee.signature eventId fun hheld => hdisjoint hheld hlock, hb]

theorem event_of_others (h : rules.Others locks c d) {eventId : ℕ}
    (hevent : ∃ event, eventAt eventId c.rows = some event) :
    ∃ event, eventAt eventId d.rows = some event := by
  refine h.keeps (P := fun b => ∃ event, eventAt eventId b.rows = some event) ?_ hevent
  rintro held b b' - - hguarantee ⟨event, hb⟩
  exact hguarantee.events eventId event hb

/-- A row that is not locked is not written. -/
theorem get?_applyWrites_of_not_mem (hcovered : ∀ w ∈ ws, w.1 ∈ locks) {key : Key}
    (hkey : key ∉ locks) (rows : Rows) :
    Dict.get? key (applyWrites ws rows) = Dict.get? key rows := by
  apply get?_applyWrites_of_forall_ne
  rintro w hw rfl
  exact hkey (hcovered w hw)

theorem signature_applyWrites_of_others (hcovered : ∀ w ∈ ws, w.1 ∈ locks)
    (h : rules.Others locks c d) {eventId : ℕ} (hlock : .event eventId ∈ locks) :
    signature eventId (applyWrites ws d.rows) = signature eventId (applyWrites ws c.rows) := by
  funext id
  unfold signature
  by_cases hid : Key.job id ∈ locks
  · rw [jobAt_congr (get?_applyWrites_congr ws (h.get? hid))]
  · rw [jobAt_congr (get?_applyWrites_of_not_mem hcovered hid d.rows),
      jobAt_congr (get?_applyWrites_of_not_mem hcovered hid c.rows)]
    exact congrFun (signature_of_others h hlock) id

theorem Staged.others (h : Staged entries touched settled locks ws c)
    (hd : rules.Others locks c d) : Staged entries touched settled locks ws d := by
  have hjobs : ∀ id, (jobAt id (applyWrites ws d.rows) = jobAt id (applyWrites ws c.rows) ∧
      jobAt id d.rows = jobAt id c.rows) ∨
      (jobAt id (applyWrites ws d.rows) = jobAt id d.rows ∧
        jobAt id (applyWrites ws c.rows) = jobAt id c.rows) := by
    intro id
    by_cases hid : Key.job id ∈ locks
    · exact .inl ⟨jobAt_congr (get?_applyWrites_congr ws (hd.get? hid)), jobAt_congr (hd.get? hid)⟩
    · exact .inr ⟨jobAt_congr (get?_applyWrites_of_not_mem h.covered hid _),
        jobAt_congr (get?_applyWrites_of_not_mem h.covered hid _)⟩
  have hevents : ∀ id, (eventAt id (applyWrites ws d.rows) = eventAt id (applyWrites ws c.rows) ∧
      eventAt id d.rows = eventAt id c.rows) ∨
      eventAt id (applyWrites ws d.rows) = eventAt id d.rows := by
    intro id
    by_cases hid : Key.event id ∈ locks
    · exact .inl ⟨eventAt_congr (get?_applyWrites_congr ws (hd.get? hid)),
        eventAt_congr (hd.get? hid)⟩
    · exact .inr (eventAt_congr (get?_applyWrites_of_not_mem h.covered hid _))
  refine ⟨h.covered, ?_, ?_, ?_, ?_, ?_, ?_⟩
  · intro id
    rcases hjobs id with ⟨hview, hbase⟩ | ⟨hsame, -⟩
    · rw [hview, hbase]
      exact h.job id
    · exact .inl hsame
  · intro id
    have hattempts := h.attempts id
    unfold attemptsAt at hattempts ⊢
    rcases hjobs id with ⟨hview, hbase⟩ | ⟨hsame, hbase⟩
    · rw [hview, hbase]
      exact hattempts
    · rw [hbase] at hattempts
      rw [hsame]
      omega
  · intro id hid
    rcases hevents id with ⟨hview, hbase⟩ | hsame
    · rw [hview, hbase]
      exact h.event id hid
    · exact hsame
  · intro id event hevent
    rcases hevents id with ⟨hview, hbase⟩ | hsame
    · rw [hview]
      exact h.present id event (hbase ▸ hevent)
    · exact ⟨event, hsame.trans hevent⟩
  · intro eventId hmem
    obtain ⟨hlock, hagrees⟩ := h.settled eventId hmem
    refine ⟨hlock, ?_⟩
    intro event hevent hjob
    have hsignature := signature_applyWrites_of_others h.covered hd hlock
    have hview : eventAt eventId (applyWrites ws d.rows) = eventAt eventId (applyWrites ws c.rows) :=
      eventAt_congr (get?_applyWrites_congr ws (hd.get? hlock))
    exact agrees_congr hsignature.symm
      (hagrees event (hview ▸ hevent) ((hasJob_congr hsignature).mp hjob))
  · intro eventId hmem
    exact event_of_others hd (h.live eventId hmem)

/-- What the jobs of an event say is changed at touched events only. -/
theorem Staged.signature (h : Staged entries touched settled locks ws c) {eventId : ℕ}
    (hevent : eventId ∉ touched) :
    signature eventId (applyWrites ws c.rows) = Notifications.signature eventId c.rows := by
  funext id
  unfold Notifications.signature
  rcases h.job id with hsame | ⟨job, job', hjob, hjob', -, hid, -, hstanding⟩
  · rw [hsame]
  · rw [hjob, hjob']
    by_cases he : job.eventId = eventId
    · have hsame := hstanding.resolve_right (he ▸ hevent)
      simp [hid, he, hsame]
    · simp [hid, he]

theorem claimsOf_append (id : ℕ) (log entries : List Entry) :
    claimsOf id (log ++ entries) = claimsOf id log + claimsOf id entries :=
  List.countP_append

/-- A transaction that has reconciled every event it touched may commit. -/
theorem Staged.commit (h : Staged entries touched settled locks ws c) (hc : Inv c)
    (hsettled : ∀ eventId ∈ touched, eventId ∈ settled) :
    Guarantee locks c ⟨applyWrites ws c.rows, c.log ++ entries⟩ ∧
      Inv ⟨applyWrites ws c.rows, c.log ++ entries⟩ := by
  refine ⟨⟨⟨entries, rfl, ?_⟩, ?_, h.present⟩, ?_⟩
  · intro id job hjob
    rcases h.job id with hsame | ⟨job₀, -, hjob₀, -, hmoved, -⟩
    · exact .inl (hsame.trans hjob)
    · rw [hjob] at hjob₀
      obtain rfl := Option.some.inj hjob₀
      exact .inr hmoved
  · intro eventId hlock
    apply h.signature
    intro htouched
    exact hlock (h.settled eventId (hsettled eventId htouched)).1
  · refine ⟨nodup_applyWrites hc.nodup ws, ?_, ?_, ?_, ?_⟩
    · intro id job hjob
      have hbase : ∃ job₀, jobAt id c.rows = some job₀ ∧ job.eventId = job₀.eventId := by
        rcases h.job id with hsame | ⟨job₀, job', hjob₀, hjob', -, hid, -⟩
        · exact ⟨job, hsame.symm.trans hjob, rfl⟩
        · obtain rfl := Option.some.inj (hjob'.symm.trans hjob)
          exact ⟨job₀, hjob₀, hid⟩
      obtain ⟨job₀, hjob₀, hid⟩ := hbase
      obtain ⟨event, hevent⟩ := hc.parents id job₀ hjob₀
      show ∃ event, eventAt job.eventId (applyWrites ws c.rows) = some event
      rw [hid]
      exact h.present _ event hevent
    · intro eventId event hevent hjob
      by_cases hmem : eventId ∈ settled
      · exact (h.settled eventId hmem).2 event hevent hjob
      · have hsignature := h.signature fun htouched => hmem (hsettled eventId htouched)
        have hevent' : eventAt eventId c.rows = some event := (h.event eventId hmem).symm.trans hevent
        exact agrees_congr hsignature.symm
          (hc.agrees eventId event hevent' ((hasJob_congr hsignature).mp hjob))
    · intro id
      show claimsOf id (c.log ++ entries) ≤ attemptsAt id (applyWrites ws c.rows)
      rw [claimsOf_append, h.attempts id]
      exact Nat.add_le_add_right (hc.attempts id) _
    · intro id job hjob
      rcases h.job id with hsame | ⟨job₀, job', -, hjob', -, -, hbound, -⟩
      · exact hc.bounded id job (hsame.symm.trans hjob)
      · obtain rfl := Option.some.inj (hjob'.symm.trans hjob)
        exact hbound

/-! ### Writes of a transaction -/

/-- A locked job that the transaction has not written yet is written. -/
theorem Staged.writeJob {id : ℕ} {job : Job} {f : Job → Job} {more : List Entry}
    (event : List ℕ) (h : Staged entries touched [] locks ws c) (hc : Inv c)
    (hjob : jobAt id c.rows = some job) (hview : jobAt id (applyWrites ws c.rows) = some job)
    (hmoved : Moved more id job) (hevent : (f job).eventId = job.eventId)
    (hbound : (f job).attemptCount ≤ maxAttempts)
    (hclaims : ∀ id', claimsOf id' more =
      if id = id' then (f job).attemptCount - job.attemptCount else 0)
    (hle : job.attemptCount ≤ (f job).attemptCount)
    (hstanding : (f job).status.standing = job.status.standing ∨ job.eventId ∈ event)
    (hsub : ∀ eventId ∈ event, eventId = job.eventId) :
    Staged (entries ++ more) (touched ++ event) [] (.job id :: locks)
      (ws ++ [(.job id, updateJob f)]) c := by
  have hget := jobAt_eq_some.mp hview
  have hviewAfter : ∀ id', jobAt id' (applyWrites (ws ++ [(.job id, updateJob f)]) c.rows) =
      if id = id' then some (f job) else jobAt id' (applyWrites ws c.rows) := by
    intro id'
    by_cases hid : id = id'
    · subst hid
      rw [if_pos rfl, jobAt_eq_some, applyWrites_append, get?_put, if_pos rfl, hget]
      rfl
    · rw [if_neg hid]
      refine jobAt_congr ?_
      rw [applyWrites_append, get?_put, if_neg (by simpa using hid)]
  have heventAfter : ∀ eventId,
      eventAt eventId (applyWrites (ws ++ [(.job id, updateJob f)]) c.rows) =
        eventAt eventId (applyWrites ws c.rows) := by
    intro eventId
    refine eventAt_congr ?_
    rw [applyWrites_append, get?_put, if_neg (by simp)]
  refine ⟨?_, ?_, ?_, ?_, ?_, by simp, ?_⟩
  · intro w hw
    rcases List.mem_append.mp hw with hw | hw
    · exact List.mem_cons_of_mem _ (h.covered w hw)
    · rw [List.mem_singleton.mp hw]
      exact List.mem_cons_self
  · intro id'
    rw [hviewAfter id']
    by_cases hid : id = id'
    · subst hid
      rw [if_pos rfl]
      refine .inr ⟨job, f job, hjob, rfl, ?_, hevent, hbound, ?_⟩
      · exact hmoved.mono fun e he => List.mem_append_right _ he
      · exact hstanding.imp_right fun he => List.mem_append_right _ he
    · rw [if_neg hid]
      rcases h.job id' with hsame | ⟨job₀, job', hjob₀, hjob', hmoved', hid', hbound', hst⟩
      · exact .inl hsame
      · exact .inr ⟨job₀, job', hjob₀, hjob',
          hmoved'.mono fun e he => List.mem_append_left _ he, hid', hbound',
          hst.imp_right fun he => List.mem_append_left _ he⟩
  · intro id'
    have hattempts := h.attempts id'
    rw [claimsOf_append, hclaims id']
    unfold attemptsAt at hattempts ⊢
    rw [hviewAfter id']
    by_cases hid : id = id'
    · subst hid
      rw [hview, hjob] at hattempts
      simp only [if_true, hjob, Option.elim_some] at hattempts ⊢
      omega
    · rw [if_neg hid, if_neg hid, hattempts]
      omega
  · intro eventId _
    rw [heventAfter]
    exact h.event eventId (by simp)
  · intro eventId e he
    rw [heventAfter]
    exact h.present eventId e he
  · intro eventId hmem
    rcases List.mem_append.mp hmem with hmem | hmem
    · exact h.live eventId hmem
    · rw [hsub eventId hmem]
      exact hc.parents id job hjob

/-- An event that the transaction has locked is given the status its jobs give it. -/
theorem Staged.writeEvent {eventId : ℕ} {rows : Rows} {now : ℤ}
    (h : Staged entries touched settled locks ws c) (hlock : .event eventId ∈ locks)
    (hnodup : (rows.map Prod.fst).Nodup)
    (hsignature : Notifications.signature eventId rows =
      Notifications.signature eventId (applyWrites ws c.rows)) :
    Staged entries touched (eventId :: settled) locks
      (ws ++ [(.event eventId, updateEvent (reconciled (statusesOf eventId rows) now))]) c := by
  have hjobAfter : ∀ id, jobAt id (applyWrites
      (ws ++ [(.event eventId, updateEvent (reconciled (statusesOf eventId rows) now))]) c.rows) =
        jobAt id (applyWrites ws c.rows) := by
    intro id
    refine jobAt_congr ?_
    rw [applyWrites_append, get?_put, if_neg (by simp)]
  have hsignatureAfter : ∀ other, Notifications.signature other (applyWrites
      (ws ++ [(.event eventId, updateEvent (reconciled (statusesOf eventId rows) now))]) c.rows) =
        Notifications.signature other (applyWrites ws c.rows) := by
    intro other
    funext id
    unfold Notifications.signature
    rw [hjobAfter id]
  have heventAfter : ∀ other, other ≠ eventId → eventAt other (applyWrites
      (ws ++ [(.event eventId, updateEvent (reconciled (statusesOf eventId rows) now))]) c.rows) =
        eventAt other (applyWrites ws c.rows) := by
    intro other hne
    refine eventAt_congr ?_
    rw [applyWrites_append, get?_put, if_neg (by simpa using Ne.symm hne)]
  have heventSelf : eventAt eventId (applyWrites
      (ws ++ [(.event eventId, updateEvent (reconciled (statusesOf eventId rows) now))]) c.rows) =
        (eventAt eventId (applyWrites ws c.rows)).map
          (reconciled (statusesOf eventId rows) now) := by
    unfold eventAt
    rw [applyWrites_append, get?_put, if_pos rfl]
    cases Dict.get? (Key.event eventId) (applyWrites ws c.rows) with
    | none => rfl
    | some row => cases row <;> rfl
  refine ⟨?_, ?_, ?_, ?_, ?_, ?_, h.live⟩
  · intro w hw
    rcases List.mem_append.mp hw with hw | hw
    · exact h.covered w hw
    · rw [List.mem_singleton.mp hw]
      exact hlock
  · intro id
    rw [hjobAfter id]
    exact h.job id
  · intro id
    have hattempts := h.attempts id
    unfold attemptsAt at hattempts ⊢
    rw [hjobAfter id]
    exact hattempts
  · intro other hother
    rw [List.mem_cons, not_or] at hother
    rw [heventAfter other hother.1]
    exact h.event other hother.2
  · intro other event hevent
    obtain ⟨event', hevent'⟩ := h.present other event hevent
    by_cases hne : other = eventId
    · subst hne
      exact ⟨_, by rw [heventSelf, hevent']; rfl⟩
    · exact ⟨event', (heventAfter other hne).trans hevent'⟩
  · intro other hother
    by_cases hne : other = eventId
    · subst hne
      refine ⟨hlock, ?_⟩
      intro event hevent hjob
      rw [heventSelf] at hevent
      obtain ⟨old, -, rfl⟩ := Option.map_eq_some_iff.mp hevent
      have hsame := hsignature.trans (hsignatureAfter other).symm
      exact agrees_congr hsame (reconciled_agrees hnodup ((hasJob_congr hsame).mpr hjob) now old)
    · obtain ⟨hmem, hagrees⟩ := h.settled other ((List.mem_cons.mp hother).resolve_left hne)
      refine ⟨hmem, ?_⟩
      intro event hevent hjob
      rw [heventAfter other hne] at hevent
      exact agrees_congr (hsignatureAfter other).symm
        (hagrees event hevent ((hasJob_congr (hsignatureAfter other)).mp hjob))

end Notifications
