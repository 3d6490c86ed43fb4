import DataRelay.Notifications.OutboxRules

/-! The programs of the outbox keep its rules, so the protocol holds in every interleaving of
any number of workers, with crashes at any statement and any clocks. -/
namespace Notifications
open ReadCommitted

variable {entries : List Entry} {touched settled : List ℕ} {locks : List Key}
  {ws : List (Write Key Row)} {c d : Committed Key Row Entry} {next : Code}

/-! ### Reconciling -/

theorem safe_commit (h : Staged entries touched settled locks ws c) (hc : Inv c)
    (hsettled : ∀ eventId ∈ touched, eventId ∈ settled)
    (hnext : ∀ d, Inv d → rules.Safe next [] [] d) :
    rules.Safe (.commit entries next) locks ws c := by
  intro d hd
  obtain ⟨hguarantee, hinv⟩ := (h.others hd).commit (hd.inv hc) hsettled
  exact ⟨hguarantee, hinv, hnext _ hinv⟩

theorem safe_reconcileEvent {eventId : ℕ} {now : ℤ}
    (h : Staged entries touched settled locks ws c) (hc : Inv c) (htouched : eventId ∈ touched)
    (hnext : ∀ locks ws d, Staged entries touched (eventId :: settled) locks ws d → Inv d →
      rules.Safe next locks ws d) :
    rules.Safe (reconcileEvent eventId now next) locks ws c := by
  unfold reconcileEvent
  intro d hd
  have hstaged := h.others hd
  obtain ⟨event, hevent⟩ := hstaged.live eventId htouched
  obtain ⟨event', hevent'⟩ := hstaged.present eventId event hevent
  rw [eventAt_eq_some.mp hevent']
  intro e he
  have hstaged' := (hstaged.grow fun key hkey => List.mem_cons_of_mem (Key.event eventId) hkey).others he
  have hlock : Key.event eventId ∈ Key.event eventId :: locks := List.mem_cons_self
  intro f hf
  have hinv : Inv e := he.inv (hd.inv hc)
  refine hnext _ _ _ ((Staged.writeEvent (hstaged'.others hf) hlock
    (nodup_applyWrites hinv.nodup ws) ?_).grow fun key hkey => List.mem_cons_of_mem _ hkey)
    (hf.inv hinv)
  exact (signature_applyWrites_of_others hstaged'.covered hf hlock).symm

theorem safe_reconcileEvents {now : ℤ} {eventIds : List ℕ}
    (h : Staged entries touched settled locks ws c) (hc : Inv c)
    (htouched : ∀ eventId ∈ eventIds, eventId ∈ touched)
    (hnext : ∀ settled' locks ws d, Staged entries touched settled' locks ws d →
      (∀ eventId, eventId ∈ eventIds ∨ eventId ∈ settled → eventId ∈ settled') → Inv d →
      rules.Safe next locks ws d) :
    rules.Safe (reconcileEvents now next eventIds) locks ws c := by
  induction eventIds generalizing settled locks ws c with
  | nil => exact hnext settled _ _ _ h (by simp) hc
  | cons eventId rest ih =>
    refine safe_reconcileEvent h hc (htouched eventId List.mem_cons_self) ?_
    intro locks' ws' d hstaged hd
    refine ih hstaged hd (fun other hother => htouched other (List.mem_cons_of_mem _ hother)) ?_
    intro settled' locks'' ws'' e hstaged' hall he
    refine hnext settled' _ _ _ hstaged' ?_ he
    rintro other (hother | hother)
    · rcases List.mem_cons.mp hother with rfl | hother
      · exact hall _ (.inr List.mem_cons_self)
      · exact hall _ (.inl hother)
    · exact hall _ (.inr (List.mem_cons_of_mem _ hother))

/-! ### Claims -/

theorem eligible_cases {now : ℤ} {job : Job} (h : eligible now job = true) :
    job.status = .pending ∨
      job.status = .leased ∧ ∃ expires, job.leaseExpiresAt = some expires ∧ expires ≤ now := by
  simp only [eligible, Bool.or_eq_true, Bool.and_eq_true, decide_eq_true_eq, Option.any_eq_true] at h
  rcases h with ⟨hpending, -⟩ | ⟨hleased, expires, hexpires, hle⟩
  · exact .inl hpending
  · exact .inr ⟨hleased, expires, hexpires, hle⟩

theorem eligible_standing {now : ℤ} {job : Job} (h : eligible now job = true) :
    job.status.standing = .pending := by
  rcases eligible_cases h with hstatus | ⟨hstatus, -⟩
  · rw [hstatus]
    rfl
  · rw [hstatus]
    rfl

/-- A claim that found the job eligible may change it. -/
theorem moved_of_eligible {now : ℤ} {id : ℕ} {job : Job} {entry : Entry}
    (h : eligible now job = true)
    (hentry : (∃ token, entry = .claimed id token now) ∨ entry = .expired id now) :
    Moved [entry] id job := by
  constructor
  · rcases eligible_cases h with hstatus | ⟨hstatus, -⟩
    · rw [hstatus]
      rfl
    · rw [hstatus]
      rfl
  · intro hleased
    rcases eligible_cases h with hstatus | ⟨-, expires, hexpires, hle⟩
    · rw [hleased] at hstatus
      cases hstatus
    · refine .inr ⟨now, expires, ?_, hexpires, hle⟩
      rcases hentry with ⟨token, rfl⟩ | rfl
      · exact .inl ⟨token, List.mem_singleton_self _⟩
      · exact .inr (List.mem_singleton_self _)

/-- A row the claim has locked and not written yet. -/
structure Claimable (now : ℤ) (locks : List Key) (ws : List (Write Key Row))
    (c : Committed Key Row Entry) (id : ℕ) (job : Job) : Prop where
  lock : .job id ∈ locks
  base : jobAt id c.rows = some job
  view : jobAt id (applyWrites ws c.rows) = some job
  eligible : eligible now job = true

theorem Claimable.others {now : ℤ} {id : ℕ} {job : Job} (h : Claimable now locks ws c id job)
    (hd : rules.Others locks c d) : Claimable now locks ws d id job where
  lock := h.lock
  base := (jobAt_congr (hd.get? h.lock)).trans h.base
  view := (jobAt_congr (get?_applyWrites_congr ws (hd.get? h.lock))).trans h.view
  eligible := h.eligible

/-- The write of another row leaves it to be claimed. -/
theorem Claimable.write {now : ℤ} {id other : ℕ} {job : Job} {change : Option Row → Option Row}
    (h : Claimable now locks ws c id job) (hne : other ≠ id) :
    Claimable now (.job other :: locks) (ws ++ [(.job other, change)]) c id job where
  lock := List.mem_cons_of_mem _ h.lock
  base := h.base
  view := by
    rw [← h.view]
    refine jobAt_congr ?_
    rw [applyWrites_append, get?_put, if_neg (by simpa using hne)]
  eligible := h.eligible

theorem safe_claimRows {now leaseSeconds : ℤ} {tokens : ℕ → String}
    {next : List DeliveryClaim → List Entry → Code} {rows : List (ℕ × Job)}
    {claims : List DeliveryClaim} (h : Staged entries touched [] locks ws c) (hc : Inv c)
    (hnodup : (rows.map Prod.fst).Nodup)
    (hrows : ∀ row ∈ rows, Claimable now locks ws c row.1 row.2)
    (hnext : ∀ claims entries touched settled locks ws d,
      Staged entries touched settled locks ws d → (∀ eventId ∈ touched, eventId ∈ settled) →
      Inv d → rules.Safe (next claims entries) locks ws d) :
    rules.Safe (claimRows now leaseSeconds tokens next rows claims touched entries) locks ws c := by
  induction rows generalizing entries touched locks ws c claims with
  | nil =>
    unfold claimRows
    refine safe_reconcileEvents h hc (fun eventId hmem => List.mem_dedup.mp hmem) ?_
    intro settled' locks' ws' d hstaged hall hd
    exact hnext _ _ _ _ _ _ _ hstaged
      (fun eventId hmem => hall eventId (.inl (List.mem_dedup.mpr hmem))) hd
  | cons row rows ih =>
    obtain ⟨id, job⟩ := row
    rw [List.map_cons, List.nodup_cons] at hnodup
    have hrest : ∀ (change : Option Row → Option Row) e, rules.Others locks c e →
        ∀ row ∈ rows, Claimable now (.job id :: locks) (ws ++ [(.job id, change)]) e row.1 row.2 := by
      intro change e he row hrow
      refine ((hrows row (List.mem_cons_of_mem _ hrow)).others he).write ?_
      intro hid
      have hmem : row.1 ∈ rows.map Prod.fst := List.mem_map_of_mem hrow
      exact hnodup.1 (hid ▸ hmem)
    have hclaimable : Claimable now locks ws c id job := hrows (id, job) List.mem_cons_self
    have hbounded : job.attemptCount ≤ maxAttempts := hc.bounded id job hclaimable.base
    unfold claimRows
    by_cases hspent : job.attemptCount ≥ maxAttempts
    · rw [if_pos hspent]
      intro e he
      have hclaim := hclaimable.others he
      have hmove : Moved [.expired id now] id job := moved_of_eligible hclaim.eligible (.inr rfl)
      refine ih ((h.others he).writeJob [job.eventId] (he.inv hc) hclaim.base hclaim.view hmove rfl
        hbounded ?_ le_rfl (.inr List.mem_cons_self) (by simp)) (he.inv hc) hnodup.2
        (hrest _ e he)
      intro id'
      simp [claimsOf, abandoned]
    · rw [if_neg hspent]
      intro e he
      have hclaim := hclaimable.others he
      have hmove : Moved [.claimed id (tokens id) now] id job :=
        moved_of_eligible hclaim.eligible (.inl ⟨_, rfl⟩)
      have hstanding : (leasedJob now leaseSeconds (tokens id) (job.attemptCount + 1) job).status.standing =
          job.status.standing := (eligible_standing hclaim.eligible).symm
      have hstaged := (h.others he).writeJob [] (he.inv hc) hclaim.base hclaim.view hmove
        rfl (by simp only [leasedJob]; omega)
        (by intro id'; by_cases hid : id = id' <;> simp [claimsOf, leasedJob, hid])
        (by simp only [leasedJob]; omega) (.inl hstanding) (by simp)
      rw [List.append_nil] at hstaged
      exact ih hstaged (he.inv hc) hnodup.2 (hrest _ e he)

theorem keys_jobsIn_sublist (rows : Rows) :
    ((jobsIn rows).map fun job => Key.job job.1).Sublist (rows.map Prod.fst) := by
  induction rows with
  | nil => exact List.Sublist.refl _
  | cons row rows ih =>
    obtain ⟨key, row⟩ := row
    cases key <;> cases row <;> first
      | exact ih.cons_cons _
      | exact ih.cons _

theorem nodup_jobsIn {rows : Rows} (h : (rows.map Prod.fst).Nodup) :
    ((jobsIn rows).map Prod.fst).Nodup := by
  have hkeys := h.sublist (keys_jobsIn_sublist rows)
  refine List.Nodup.of_map Key.job ?_
  rw [List.map_map]
  exact hkeys

theorem nodup_eligibleQuery {now : ℤ} {limit : ℕ} {rows : Rows} (h : (rows.map Prod.fst).Nodup) :
    (eligibleQuery now limit rows).Nodup := by
  have hfilter : (((jobsIn rows).filter fun job => eligible now job.2).map
      fun job => Key.job job.1).Nodup :=
    h.sublist ((List.Sublist.map _ List.filter_sublist).trans (keys_jobsIn_sublist rows))
  have hsorted := ((List.perm_insertionSort due
    ((jobsIn rows).filter fun job => eligible now job.2)).map fun job => Key.job job.1).nodup_iff.mpr
      hfilter
  exact hsorted.sublist (List.Sublist.map _ (List.take_sublist _ _))

theorem mem_eligibleQuery {now : ℤ} {limit : ℕ} {rows : Rows} {id : ℕ}
    (h : (rows.map Prod.fst).Nodup) (hmem : .job id ∈ eligibleQuery now limit rows) :
    ∃ job, jobAt id rows = some job ∧ eligible now job = true := by
  obtain ⟨⟨id', job⟩, hjob, hid⟩ := List.mem_map.mp hmem
  obtain rfl := Key.job.inj hid
  have hsorted := (List.perm_insertionSort due _).mem_iff.mp (List.mem_of_mem_take hjob)
  obtain ⟨hin, heligible⟩ := List.mem_filter.mp hsorted
  exact ⟨job, (mem_jobsIn h).mp hin, heligible⟩

/-- The rows a claim locks are eligible jobs, each once. -/
theorem claimable_of_query {now : ℤ} {limit : ℕ} {free : Key → Bool} (hc : Inv c)
    {rows : Rows} (hrows : rows = pick (eligibleQuery now limit (Dict.restrict free c.rows))
      (Dict.restrict free c.rows)) :
    ((jobsIn rows).map Prod.fst).Nodup ∧
      ∀ row ∈ jobsIn rows, Claimable now (rows.map Prod.fst ++ []) [] c row.1 row.2 := by
  have hrestrict := nodup_restrict hc.nodup free
  have hpick : (rows.map Prod.fst).Nodup := by
    rw [hrows]
    exact (nodup_eligibleQuery hrestrict).sublist (keys_pick_sublist _ _)
  refine ⟨nodup_jobsIn hpick, ?_⟩
  rintro ⟨id, job⟩ hmem
  have hget := jobAt_eq_some.mp ((mem_jobsIn hpick).mp hmem)
  have hin := Dict.mem_of_get? hget
  have hlock : Key.job id ∈ rows.map Prod.fst := List.mem_map_of_mem hin
  rw [hrows, mem_pick] at hin
  obtain ⟨hquery, hrow⟩ := hin
  obtain ⟨job', hjob', heligible⟩ := mem_eligibleQuery hrestrict hquery
  obtain rfl : job' = job := by
    have hjob := jobAt_eq_some.mpr hrow
    exact Option.some.inj (hjob'.symm.trans hjob)
  have hbase : jobAt id c.rows = some job' := by
    rw [Dict.get?_restrict] at hrow
    split_ifs at hrow with hfree
    exact jobAt_eq_some.mpr hrow
  exact ⟨List.mem_append_left _ hlock, hbase, hbase, heligible⟩

theorem safe_claimDeliveryJobs {now : ℤ} {limit : ℕ} {leaseSeconds : ℤ} {tokens : ℕ → String}
    {next : List DeliveryClaim → Code} (hc : Inv c)
    (hnext : ∀ claims d, Inv d → rules.Safe (next claims) [] [] d) :
    rules.Safe (claimDeliveryJobs now limit leaseSeconds tokens next) [] [] c := by
  unfold claimDeliveryJobs
  split_ifs with hbounds
  · intro d hd
    trivial
  · intro d hd free
    obtain ⟨hnodup, hrows⟩ := claimable_of_query (hd.inv hc) rfl
    refine safe_claimRows (Staged.of_config (by simp) (by simp)) (hd.inv hc) hnodup hrows ?_
    intro claims entries touched settled locks ws e hstaged hsettled he
    exact safe_commit hstaged he hsettled (hnext claims)

/-! ### Completions -/

theorem safe_commit_nothing (hc : Inv c) (hnext : ∀ d, Inv d → rules.Safe next [] [] d) :
    rules.Safe (.commit [] next) locks [] c :=
  safe_commit (Staged.of_config (by simp) (by simp)) hc (by simp) hnext

theorem moved_of_holdsLease {id : ℕ} {token : String} {job : Job}
    (h : holdsLease token job = true) : Moved [.completed id token] id job := by
  simp only [holdsLease, Bool.and_eq_true, decide_eq_true_eq] at h
  constructor
  · rw [h.1]
    rfl
  · intro _
    exact .inl ⟨token, List.mem_singleton_self _, h.2⟩

theorem completedJob_eventId (success : Bool) (now : ℤ) (deadReason : Option String) (job : Job) :
    (completedJob success now deadReason job).eventId = job.eventId := by
  unfold completedJob
  split_ifs <;> rfl

theorem completedJob_attemptCount (success : Bool) (now : ℤ) (deadReason : Option String)
    (job : Job) : (completedJob success now deadReason job).attemptCount = job.attemptCount := by
  unfold completedJob
  split_ifs <;> rfl

theorem safe_completeDeliveryJob {jobId : ℕ} {token : String} {success : Bool} {now : ℤ}
    {deadReason : Option String} (hc : Inv c) (hnext : ∀ d, Inv d → rules.Safe next [] [] d) :
    rules.Safe (completeDeliveryJob jobId token success now deadReason next) [] [] c := by
  unfold completeDeliveryJob
  intro d hd
  have hd' := hd.inv hc
  cases hrow : Dict.get? (Key.job jobId) (applyWrites [] d.rows) with
  | none => exact safe_commit_nothing hd' hnext
  | some row =>
    cases row with
    | config config => exact safe_commit_nothing hd' hnext
    | event event => exact safe_commit_nothing hd' hnext
    | job job =>
      by_cases hlease : holdsLease token job = false
      · simp only [hlease, if_true]
        exact safe_commit_nothing hd' hnext
      · simp only [hlease]
        intro e he
        have he' := he.inv hd'
        show rules.Safe (if (jobAt jobId (applyWrites [] e.rows)).any (holdsLease token) then _
          else _) _ _ _
        split_ifs with hfound
        · intro f hf
          have hf' := hf.inv he'
          have hlocked : Key.job jobId ∈ lockedKeys (.job jobId) (some (Row.job job)) [] := by
            simp [lockedKeys]
          have hjob : jobAt jobId f.rows = some job := by
            rw [jobAt_congr (hf.get? hlocked), jobAt_congr (he.get? hlocked)]
            exact jobAt_eq_some.mpr hrow
          have hholds : holdsLease token job = true := by simpa using hlease
          have hstaged := (Staged.of_config (c := f) (by simp) (by simp) :
            Staged [] [] [] (lockedKeys (.job jobId) (some (Row.job job)) []) [] f).writeJob
              (f := completedJob success now deadReason) [job.eventId] hf' hjob hjob
              (moved_of_holdsLease hholds) (completedJob_eventId _ _ _ _)
              (by rw [completedJob_attemptCount]; exact hf'.bounded jobId job hjob)
              (by intro id'; simp [claimsOf, completedJob_attemptCount])
              (by rw [completedJob_attemptCount]) (.inr List.mem_cons_self) (by simp)
          refine safe_reconcileEvent hstaged hf' (by simp) ?_
          intro locks' ws' g hsettled hg
          exact safe_commit hsettled hg (by simp) hnext
        · exact safe_commit_nothing he' hnext

theorem safe_deliver {now : ℤ} {answers : ℕ → Bool} (claims : List DeliveryClaim) (hc : Inv c) :
    rules.Safe (deliver now answers claims) [] [] c := by
  induction claims generalizing c with
  | nil => trivial
  | cons claim claims ih =>
    intro d hd e he
    exact safe_completeDeliveryJob (he.inv (hd.inv hc)) fun f hf => ih hf

/-! ### Recording -/

/-- A job as it is made. -/
structure Fresh (eventId : ℕ) (job : Job) : Prop where
  event : job.eventId = eventId
  status : job.status = .pending
  attempts : job.attemptCount = 0

/-- A transaction that has inserted an event and some of its jobs. -/
structure Recording (eventId : ℕ) (locks : List Key) (ws : List (Write Key Row))
    (c : Committed Key Row Entry) : Prop where
  covered : ∀ w ∈ ws, w.1 ∈ locks
  lock : .event eventId ∈ locks
  absent : eventAt eventId c.rows = none
  kept : ∀ id job, jobAt id c.rows = some job → jobAt id (applyWrites ws c.rows) = some job
  fresh : ∀ id job, jobAt id (applyWrites ws c.rows) = some job →
    jobAt id c.rows = some job ∨ Fresh eventId job
  event : ∀ other, other ≠ eventId →
    eventAt other (applyWrites ws c.rows) = eventAt other c.rows
  own : ∃ event, eventAt eventId (applyWrites ws c.rows) = some event ∧
    (event.status = .pending ∨ ¬ HasJob eventId (applyWrites ws c.rows))

theorem Recording.others {eventId : ℕ} (h : Recording eventId locks ws c)
    (hd : rules.Others locks c d) : Recording eventId locks ws d := by
  have hjobs : ∀ id, (jobAt id (applyWrites ws d.rows) = jobAt id (applyWrites ws c.rows) ∧
      jobAt id d.rows = jobAt id c.rows) ∨
      jobAt id (applyWrites ws d.rows) = jobAt id d.rows := by
    intro id
    by_cases hid : Key.job id ∈ locks
    · exact .inl ⟨jobAt_congr (get?_applyWrites_congr ws (hd.get? hid)), jobAt_congr (hd.get? hid)⟩
    · exact .inr (jobAt_congr (get?_applyWrites_of_not_mem h.covered hid _))
  refine ⟨h.covered, h.lock, (eventAt_congr (hd.get? h.lock)).trans h.absent, ?_, ?_, ?_, ?_⟩
  · intro id job hjob
    rcases hjobs id with ⟨hview, hbase⟩ | hsame
    · exact hview.trans (h.kept id job (hbase.symm.trans hjob))
    · exact hsame.trans hjob
  · intro id job hjob
    rcases hjobs id with ⟨hview, hbase⟩ | hsame
    · rw [hbase]
      exact h.fresh id job (hview.symm.trans hjob)
    · exact .inl (hsame.symm.trans hjob)
  · intro other hne
    by_cases hother : Key.event other ∈ locks
    · rw [eventAt_congr (get?_applyWrites_congr ws (hd.get? hother)),
        eventAt_congr (hd.get? hother)]
      exact h.event other hne
    · exact eventAt_congr (get?_applyWrites_of_not_mem h.covered hother _)
  · obtain ⟨event, hevent, hstatus⟩ := h.own
    refine ⟨event, (eventAt_congr (get?_applyWrites_congr ws (hd.get? h.lock))).trans hevent, ?_⟩
    rw [hasJob_congr (signature_applyWrites_of_others h.covered hd h.lock)]
    exact hstatus

/-- No committed job is of an event that is not there. -/
theorem not_hasJob_of_absent {eventId : ℕ} (hc : Inv c) (habsent : eventAt eventId c.rows = none) :
    ¬ HasJob eventId c.rows := by
  rintro ⟨id, job, hjob, rfl⟩
  obtain ⟨event, hevent⟩ := hc.parents id job hjob
  rw [habsent] at hevent
  cases hevent

theorem Recording.signature {eventId other : ℕ} (h : Recording eventId locks ws c)
    (hne : other ≠ eventId) :
    signature other (applyWrites ws c.rows) = Notifications.signature other c.rows := by
  funext id
  unfold Notifications.signature
  cases hjob : jobAt id c.rows with
  | some job => rw [h.kept id job hjob]
  | none =>
    cases hview : jobAt id (applyWrites ws c.rows) with
    | none => rfl
    | some job =>
      rcases h.fresh id job hview with hbase | hfresh
      · rw [hjob] at hbase
        cases hbase
      · simp [hfresh.event, Ne.symm hne]

/-- The jobs of the new event are its own, and none of them has been claimed. -/
theorem Recording.commit {eventId : ℕ} (h : Recording eventId locks ws c) (hc : Inv c) :
    Guarantee locks c ⟨applyWrites ws c.rows, c.log ++ []⟩ ∧
      Inv ⟨applyWrites ws c.rows, c.log ++ []⟩ := by
  obtain ⟨own, hown, hstatus⟩ := h.own
  have hpresent : ∀ other event, eventAt other c.rows = some event →
      eventAt other (applyWrites ws c.rows) = some event := by
    intro other event hevent
    rw [h.event other, hevent]
    rintro rfl
    rw [h.absent] at hevent
    cases hevent
  have hjobs : ∀ id job, jobAt id (applyWrites ws c.rows) = some job → job.eventId = eventId →
      Fresh eventId job := by
    intro id job hjob hevent
    rcases h.fresh id job hjob with hbase | hfresh
    · exact absurd ⟨id, job, hbase, hevent⟩ (not_hasJob_of_absent hc h.absent)
    · exact hfresh
  refine ⟨⟨⟨[], rfl, fun id job hjob => .inl (h.kept id job hjob)⟩, ?_, ?_⟩, ?_⟩
  · intro other hother
    apply h.signature
    rintro rfl
    exact hother h.lock
  · intro other event hevent
    exact ⟨event, hpresent other event hevent⟩
  · refine ⟨nodup_applyWrites hc.nodup ws, ?_, ?_, ?_, ?_⟩
    · intro id job hjob
      rcases h.fresh id job hjob with hbase | hfresh
      · obtain ⟨event, hevent⟩ := hc.parents id job hbase
        exact ⟨event, hpresent _ event hevent⟩
      · exact ⟨own, hfresh.event ▸ hown⟩
    · intro other event hevent hjob
      by_cases hne : other = eventId
      · subst hne
        obtain rfl := Option.some.inj (hown.symm.trans hevent)
        have hpending := hstatus.resolve_right (not_not.mpr hjob)
        apply Agrees.of_closed
        · rw [hpending]
          refine iff_of_false (by simp) ?_
          intro hall
          obtain ⟨id, job, hjobAt, hid⟩ := hjob
          have := (hjobs id job hjobAt hid).status
          rw [hall id job hjobAt hid] at this
          cases this
        · rw [hpending]
          refine iff_of_false (by simp) ?_
          rintro ⟨id, job, hjobAt, hid, hdead⟩
          have := (hjobs id job hjobAt hid).status
          rw [hdead] at this
          cases this
      · have hsignature := h.signature hne
        exact agrees_congr hsignature.symm (hc.agrees other event
          ((h.event other hne).symm.trans hevent) ((hasJob_congr hsignature).mp hjob))
    · intro id
      show claimsOf id (c.log ++ []) ≤ attemptsAt id (applyWrites ws c.rows)
      rw [List.append_nil]
      refine (hc.attempts id).trans ?_
      unfold attemptsAt
      cases hjob : jobAt id c.rows with
      | none => exact Nat.zero_le _
      | some job => rw [h.kept id job hjob]
    · intro id job hjob
      rcases h.fresh id job hjob with hbase | hfresh
      · exact hc.bounded id job hbase
      · rw [hfresh.attempts]
        exact Nat.zero_le _

theorem Recording.safe_commit {eventId : ℕ} (h : Recording eventId locks ws c) (hc : Inv c) :
    rules.Safe (M := Unit) (.commit [] .done) locks ws c := by
  intro d hd
  obtain ⟨hguarantee, hinv⟩ := (h.others hd).commit (hd.inv hc)
  exact ⟨hguarantee, hinv, trivial⟩

/-- A job is inserted for the event. -/
theorem Recording.insertJob {eventId id : ℕ} {job : Job} (h : Recording eventId locks ws c)
    (hnone : Dict.get? (.job id) (applyWrites ws c.rows) = none) (hfresh : Fresh eventId job)
    (hpending : ∀ event, eventAt eventId (applyWrites ws c.rows) = some event →
      event.status = .pending) :
    Recording eventId (.job id :: locks) (ws ++ [(.job id, inserted (.job job))]) c := by
  have hevents : ∀ other, eventAt other (applyWrites (ws ++ [(.job id, inserted (.job job))]) c.rows) =
      eventAt other (applyWrites ws c.rows) := by
    intro other
    refine eventAt_congr ?_
    rw [applyWrites_append, get?_put, if_neg (by simp)]
  have hjobs : ∀ id', jobAt id' (applyWrites (ws ++ [(.job id, inserted (.job job))]) c.rows) =
      if id = id' then some job else jobAt id' (applyWrites ws c.rows) := by
    intro id'
    by_cases hid : id = id'
    · subst hid
      rw [if_pos rfl, jobAt_eq_some, applyWrites_append, get?_put, if_pos rfl]
      rfl
    · rw [if_neg hid]
      refine jobAt_congr ?_
      rw [applyWrites_append, get?_put, if_neg (by simpa using hid)]
  refine ⟨?_, List.mem_cons_of_mem _ h.lock, h.absent, ?_, ?_, ?_, ?_⟩
  · intro w hw
    rcases List.mem_append.mp hw with hw | hw
    · exact List.mem_cons_of_mem _ (h.covered w hw)
    · rw [List.mem_singleton.mp hw]
      exact List.mem_cons_self
  · intro id' job' hjob'
    have hview := h.kept id' job' hjob'
    rw [hjobs id', if_neg]
    · exact hview
    · rintro rfl
      rw [jobAt_eq_some, hnone] at hview
      cases hview
  · intro id' job' hjob'
    rw [hjobs id'] at hjob'
    by_cases hid : id = id'
    · rw [if_pos hid] at hjob'
      obtain rfl := Option.some.inj hjob'
      exact .inr hfresh
    · rw [if_neg hid] at hjob'
      exact h.fresh id' job' hjob'
  · intro other hne
    rw [hevents]
    exact h.event other hne
  · obtain ⟨event, hevent, -⟩ := h.own
    exact ⟨event, (hevents eventId).trans hevent, .inl (hpending event hevent)⟩

theorem Recording.insertEvent {eventId : ℕ} (event : Event) (hconfig : ∀ w ∈ ws, w.1 = .config)
    (hcovered : ∀ w ∈ ws, w.1 ∈ locks)
    (hnone : Dict.get? (.event eventId) (applyWrites ws c.rows) = none)
    (hpending : event.status = .pending) :
    Recording eventId (.event eventId :: locks)
      (ws ++ [(.event eventId, inserted (.event event))]) c := by
  have hrows : ∀ key, key ≠ .config → key ≠ .event eventId →
      Dict.get? key (applyWrites (ws ++ [(.event eventId, inserted (.event event))]) c.rows) =
        Dict.get? key c.rows := by
    intro key hkey hevent
    rw [applyWrites_append, get?_put, if_neg (Ne.symm hevent), get?_applyWrites_of_forall_ne]
    intro w hw
    rw [hconfig w hw]
    exact Ne.symm hkey
  have hjobs : ∀ id, jobAt id (applyWrites (ws ++ [(.event eventId, inserted (.event event))])
      c.rows) = jobAt id c.rows := fun id => jobAt_congr (hrows _ (by simp) (by simp))
  have habsent : Dict.get? (.event eventId) c.rows = none := by
    rw [← hnone, get?_applyWrites_of_forall_ne]
    intro w hw
    simp [hconfig w hw]
  refine ⟨?_, List.mem_cons_self, ?_, ?_, ?_, ?_, ?_⟩
  · intro w hw
    rcases List.mem_append.mp hw with hw | hw
    · exact List.mem_cons_of_mem _ (hcovered w hw)
    · rw [List.mem_singleton.mp hw]
      exact List.mem_cons_self
  · unfold eventAt
    rw [habsent]
  · intro id job hjob
    rw [hjobs id, hjob]
  · intro id job hjob
    rw [hjobs id] at hjob
    exact .inl hjob
  · intro other hne
    exact eventAt_congr (hrows _ (by simp) (by simpa using hne))
  · refine ⟨event, ?_, .inl hpending⟩
    rw [eventAt_eq_some, applyWrites_append, get?_put, if_pos rfl]
    rfl

/-- An event without jobs may have any status. -/
theorem Recording.updateOwn {eventId : ℕ} {f : Event → Event} (h : Recording eventId locks ws c)
    (hjob : ¬ HasJob eventId (applyWrites ws c.rows)) :
    Recording eventId (.event eventId :: locks) (ws ++ [(.event eventId, updateEvent f)]) c := by
  have hrows : ∀ key, key ≠ .event eventId →
      Dict.get? key (applyWrites (ws ++ [(.event eventId, updateEvent f)]) c.rows) =
        Dict.get? key (applyWrites ws c.rows) := by
    intro key hkey
    rw [applyWrites_append, get?_put, if_neg (Ne.symm hkey)]
  have hjobs : ∀ id, jobAt id (applyWrites (ws ++ [(.event eventId, updateEvent f)]) c.rows) =
      jobAt id (applyWrites ws c.rows) := fun id => jobAt_congr (hrows _ (by simp))
  refine ⟨?_, List.mem_cons_self, h.absent, ?_, ?_, ?_, ?_⟩
  · intro w hw
    rcases List.mem_append.mp hw with hw | hw
    · exact List.mem_cons_of_mem _ (h.covered w hw)
    · rw [List.mem_singleton.mp hw]
      exact List.mem_cons_self
  · intro id job hbase
    rw [hjobs id]
    exact h.kept id job hbase
  · intro id job hview
    rw [hjobs id] at hview
    exact h.fresh id job hview
  · intro other hne
    rw [eventAt_congr (hrows (.event other) (by simpa using hne))]
    exact h.event other hne
  · obtain ⟨event, hevent, -⟩ := h.own
    refine ⟨f event, ?_, .inr ?_⟩
    · rw [eventAt_eq_some, applyWrites_append, get?_put, if_pos rfl, eventAt_eq_some.mp hevent]
      rfl
    · rintro ⟨id, job, hview, hid⟩
      rw [hjobs id] at hview
      exact hjob ⟨id, job, hview, hid⟩

theorem safe_enqueueDeliveryJobs {config : Config} {eventId : ℕ} {jobIds : Channel → ℕ} {now : ℤ}
    {channels : List Channel} (h : Recording eventId locks ws c) (hc : Inv c)
    (hpending : ∀ event, eventAt eventId (applyWrites ws c.rows) = some event →
      event.status = .pending)
    (hnext : ∀ locks ws d, Recording eventId locks ws d → Inv d → rules.Safe next locks ws d) :
    rules.Safe (enqueueDeliveryJobs config eventId jobIds now next channels) locks ws c := by
  induction channels generalizing locks ws c with
  | nil => exact hnext _ _ _ h hc
  | cons channel channels ih =>
    unfold enqueueDeliveryJobs
    intro d hd hnone
    have hsame : eventAt eventId (applyWrites ws d.rows) = eventAt eventId (applyWrites ws c.rows) :=
      eventAt_congr (get?_applyWrites_congr ws (hd.get? h.lock))
    have hpending' : ∀ event, eventAt eventId (applyWrites ws d.rows) = some event →
        event.status = .pending := fun event hevent => hpending event (hsame.symm.trans hevent)
    refine ih ((h.others hd).insertJob hnone ⟨rfl, rfl, rfl⟩ hpending') (hd.inv hc) ?_
    intro event hevent
    refine hpending' event ?_
    rw [← hevent]
    refine eventAt_congr ?_
    rw [applyWrites_append, get?_put, if_neg (by simp)]

theorem safe_getOrCreateConfig {now : ℤ} {next : Config → Code} (hc : Inv c)
    (hnext : ∀ config locks ws d, (∀ w ∈ ws, w.1 = Key.config) → (∀ w ∈ ws, w.1 ∈ locks) → Inv d →
      rules.Safe (next config) locks ws d) :
    rules.Safe (getOrCreateConfig now next) [] [] c := by
  unfold getOrCreateConfig
  intro d hd
  beta_reduce
  cases configOf (applyWrites [] d.rows) with
  | some config => exact hnext config _ _ _ (by simp) (by simp) (hd.inv hc)
  | none =>
    intro e he
    exact hnext _ _ _ _ (by simp) (by simp) (he.inv (hd.inv hc))

/-- A transaction that wrote the configuration only. -/
theorem safe_commit_config (hcovered : ∀ w ∈ ws, w.1 ∈ locks) (hconfig : ∀ w ∈ ws, w.1 = .config)
    (hc : Inv c) : rules.Safe (M := Unit) (.commit [] .done) locks ws c := by
  have hstaged : Staged [] [] [] locks ws c := Staged.of_config hcovered hconfig
  exact safe_commit hstaged hc (by simp) fun _ _ => trivial

theorem safe_updateConfiguration {change : Config → Config} {now : ℤ} (hc : Inv c) :
    rules.Safe (updateConfiguration change now) [] [] c := by
  refine safe_getOrCreateConfig hc ?_
  intro config locks ws d hconfig hcovered hd e he
  refine safe_commit_config ?_ ?_ (he.inv hd)
  · intro w hw
    rcases List.mem_append.mp hw with hw | hw
    · exact List.mem_cons_of_mem _ (hcovered w hw)
    · rw [List.mem_singleton.mp hw]
      exact List.mem_cons_self
  · intro w hw
    rcases List.mem_append.mp hw with hw | hw
    · exact hconfig w hw
    · rw [List.mem_singleton.mp hw]

theorem safe_recordEvent {category : Category} {eventId : ℕ} {jobIds : Channel → ℕ} {now : ℤ}
    (hc : Inv c) : rules.Safe (recordEvent category eventId jobIds now) [] [] c := by
  refine safe_getOrCreateConfig hc ?_
  intro config locks ws d hconfig hcovered hd
  split_ifs with hdisabled hchannels
  · exact safe_commit_config hcovered hconfig hd
  · intro e he hnone
    have hrecording := Recording.insertEvent { category := category } hconfig hcovered
      hnone rfl
    rw [hchannels]
    intro f hf
    refine Recording.safe_commit ((hrecording.others hf).updateOwn ?_) (hf.inv (he.inv hd))
    rintro ⟨id, job, hjob, hid⟩
    have hsame : Dict.get? (.job id)
        (applyWrites (ws ++ [(.event eventId, inserted (.event { category := category }))]) f.rows) =
          Dict.get? (.job id) f.rows := by
      apply get?_applyWrites_of_forall_ne
      intro w hw
      rcases List.mem_append.mp hw with hw | hw
      · simp [hconfig w hw]
      · simp [List.mem_singleton.mp hw]
    rw [jobAt_congr hsame] at hjob
    exact not_hasJob_of_absent (hf.inv (he.inv hd)) (hrecording.others hf).absent
      ⟨id, job, hjob, hid⟩
  · intro e he hnone
    refine safe_enqueueDeliveryJobs (Recording.insertEvent _ hconfig hcovered hnone rfl) (he.inv hd)
      ?_ fun locks ws f hf hinv => hf.safe_commit hinv
    intro event hevent
    rw [eventAt_eq_some, applyWrites_append, get?_put, if_pos rfl] at hevent
    obtain rfl := Row.event.inj (Option.some.inj hevent)
    rfl

/-! ### The protocol -/

theorem safe_serve (request : Request) (hc : Inv c) : rules.Safe (serve request) [] [] c := by
  cases request with
  | configure change now => exact safe_updateConfiguration hc
  | record category eventId jobIds now => exact safe_recordEvent hc
  | claim now limit leaseSeconds tokens =>
    exact safe_claimDeliveryJobs hc fun _ _ _ => trivial
  | complete jobId token success now deadReason =>
    exact safe_completeDeliveryJob hc fun _ _ => trivial
  | drain now limit tokens answers =>
    exact safe_claimDeliveryJobs hc fun claims _ hd => safe_deliver claims hd

theorem inv_empty : Inv (State.initial).toCommitted where
  nodup := List.nodup_nil
  parents := by
    intro id job hjob
    cases hjob
  agrees := by
    intro eventId event hevent
    cases hevent
  attempts id := le_rfl
  bounded := by
    intro id job hjob
    cases hjob

theorem attemptsAt_le (hc : Inv c) (id : ℕ) : attemptsAt id c.rows ≤ maxAttempts := by
  unfold attemptsAt
  cases hjob : jobAt id c.rows with
  | none => exact Nat.zero_le _
  | some job => exact hc.bounded id job hjob

/-- A job that is sent or dead is left as it is. -/
def TerminalKept (s t : State) : Prop :=
  ∀ id job, jobAt id s.rows = some job → job.status.terminal = true → jobAt id t.rows = some job

/-- A leased job changes only where its token is presented, or where a claim found its lease
expired. -/
def LeaseKept (s t : State) : Prop :=
  ∀ id job, jobAt id s.rows = some job → job.status = .leased → jobAt id t.rows ≠ some job →
    ∃ entries, t.log = s.log ++ entries ∧ (Presented entries id job ∨ TakenOver entries id job)

theorem kept_of_moves {s t : State} (h : rules.Moves s.toCommitted t.toCommitted) :
    TerminalKept s t ∧ LeaseKept s t := by
  rcases h with hsame | ⟨locks, hguarantee⟩
  · have hrows : t.rows = s.rows := congrArg Committed.rows hsame
    constructor
    · intro id job hjob _
      rw [hrows]
      exact hjob
    · intro id job hjob _ hne
      rw [hrows] at hne
      exact absurd hjob hne
  · obtain ⟨entries, hlog, hjobs⟩ := hguarantee.jobs
    constructor
    · intro id job hjob hterminal
      rcases hjobs id job hjob with hsame | hmoved
      · exact hsame
      · rw [hmoved.nonterminal] at hterminal
        cases hterminal
    · intro id job hjob hleased hne
      rcases hjobs id job hjob with hsame | hmoved
      · exact absurd hsame hne
      · exact ⟨entries, hlog, hmoved.leased hleased⟩

/-- In every interleaving of the requests of any number of workers, with crashes and any clocks:
no step changes a job that is sent or dead, a leased job is changed under its token or after its
lease expired, a job is claimed at most so many times, and an event with jobs has the status its
jobs give it. -/
theorem outbox_protocol (actions : List (Action Request)) :
    Steps.Along (step serve) (fun s a => TerminalKept s (step serve s a) ∧
      LeaseKept s (step serve s a)) State.initial actions ∧
    (∀ id, claimsOf id (Steps.run (step serve) State.initial actions).log ≤ maxAttempts) ∧
    ∀ eventId event,
      eventAt eventId (Steps.run (step serve) State.initial actions).rows = some event →
      HasJob eventId (Steps.run (step serve) State.initial actions).rows →
      Agrees event eventId (Steps.run (step serve) State.initial actions).rows := by
  obtain ⟨hinv, hmoves⟩ := run_safe rules serve (fun r _ hc => safe_serve r hc) inv_empty () actions
  refine ⟨hmoves.imp fun s a h => kept_of_moves h, ?_, hinv.agrees⟩
  intro id
  exact (hinv.attempts id).trans (attemptsAt_le hinv id)

/-! ### A lease that expired -/

/-- Without the exception for leases that have expired. -/
def OnlyPresented (s t : State) : Prop :=
  ∀ id job, jobAt id s.rows = some job → job.status = .leased → jobAt id t.rows ≠ some job →
    ∃ entries, t.log = s.log ++ entries ∧ Presented entries id job

/-- A webhook job is made and claimed with a lease of a minute. -/
def leasedRun : List (Action Request) :=
  [.start (.configure
    (fun config => { config with webhookEnabled := true, webhookUrl := some "https://hook" }) 1)] ++
  List.replicate 4 (.run 0) ++
  [.start (.record .approval 1 (fun _ => 1) 2)] ++ List.replicate 4 (.run 1) ++
  [.start (.claim 3 1 60 fun _ => "a")] ++ List.replicate 3 (.run 2)

/-- Another worker claims it after the minute has passed. -/
def takeoverRun : List (Action Request) :=
  leasedRun ++ [.start (.claim 90 1 60 fun _ => "b")] ++ List.replicate 2 (.run 3) ++ [.run 3]

theorem takeoverRun_not_presented :
    ¬ Steps.Along (step serve) (fun s a => OnlyPresented s (step serve s a)) State.initial
      takeoverRun := by
  intro h
  have hlast := Steps.Along.last h
  have hbefore : jobAt 1 (Steps.run (step serve) State.initial (leasedRun ++
      [.start (.claim 90 1 60 fun _ => "b")] ++ List.replicate 2 (.run 3))).rows = some {
        eventId := 1, channel := .webhook, configUpdatedAt := 1, status := .leased
        attemptCount := 1, nextAttemptAt := 2, leaseToken := some "a", leaseExpiresAt := some 63
        updatedAt := 3 } := by rfl
  obtain ⟨entries, hlog, token, hentry, -⟩ := hlast 1 _ hbefore rfl (by decide +kernel)
  have hentries : entries = [.claimed 1 "b" 90] := by
    have hold : (Steps.run (step serve) State.initial (leasedRun ++
        [.start (.claim 90 1 60 fun _ => "b")] ++ List.replicate 2 (.run 3))).log =
          [.claimed 1 "a" 3] := by rfl
    have hnew : (step serve (Steps.run (step serve) State.initial (leasedRun ++
        [.start (.claim 90 1 60 fun _ => "b")] ++ List.replicate 2 (.run 3))) (.run 3)).log =
          [.claimed 1 "a" 3, .claimed 1 "b" 90] := by rfl
    rw [hold, hnew] at hlog
    simpa using hlog.symm
  rw [hentries] at hentry
  simp at hentry

end Notifications
