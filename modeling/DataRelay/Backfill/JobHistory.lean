import DataRelay.Backfill.Lifecycle

/-! Where every status is written over the status its session saw, jobs go through their life
once: they are started at most once, a terminal status stays, and a stream has at most one
active job. -/
namespace Backfill
open ReadCommitted

/-! ### Histories of status changes -/

/-- The status the log leaves a job in. -/
def statusAfter (id : ℕ) (log : List Change) : Option Status :=
  log.foldl (fun status e => if e.job = id then some e.new else status) none

/-- Every change was made over the status it saw. -/
def Clean (log : List Change) : Prop :=
  ∀ earlier e later, log = earlier ++ e :: later → e.seen = statusAfter e.job earlier

/-- The changes the code makes, with the status it has seen. -/
def Change.legal (e : Change) : Bool :=
  match e.seen, e.new with
  | none, .pending => true
  | some .pending, .running => true
  | some .pending, .cancelled => true
  | some .running, .cancelling => true
  | some .running, .cancelled => true
  | some .running, .failed => true
  | some .running, .completed => true
  | some .cancelling, .cancelled => true
  | some .cancelling, .failed => true
  | _, _ => false

/-- How often a job was started. -/
def startsOf (id : ℕ) (log : List Change) : ℕ :=
  log.countP fun e => e.job = id && e.new = .running

@[simp] theorem statusAfter_nil (id : ℕ) : statusAfter id [] = none := rfl

@[simp] theorem statusAfter_concat (id : ℕ) (log : List Change) (e : Change) :
    statusAfter id (log ++ [e]) = if e.job = id then some e.new else statusAfter id log := by
  simp [statusAfter]

theorem statusAfter_append_of_forall_ne {id : ℕ} {log events : List Change}
    (h : ∀ e ∈ events, e.job ≠ id) : statusAfter id (log ++ events) = statusAfter id log := by
  induction events using List.reverseRecOn with
  | nil => rw [List.append_nil]
  | append_singleton events e ih =>
    rw [← List.append_assoc, statusAfter_concat, if_neg (h e (by simp))]
    exact ih fun f hf => h f (List.mem_append_left _ hf)

theorem clean_nil : Clean [] := by
  intro earlier e later h
  exact absurd h.symm (by simp)

theorem clean_concat {log : List Change} {e : Change} :
    Clean (log ++ [e]) ↔ Clean log ∧ e.seen = statusAfter e.job log := by
  constructor
  · intro h
    refine ⟨?_, h log e [] rfl⟩
    intro earlier f later hlog
    exact h earlier f (later ++ [e]) (by simp [hlog])
  · rintro ⟨hlog, he⟩ earlier f later hsplit
    rcases List.eq_nil_or_concat later with rfl | ⟨later, last, rfl⟩
    · obtain ⟨rfl, hf⟩ := List.append_inj' hsplit rfl
      obtain rfl := (List.cons.inj hf).1
      exact he
    · have hsplit' : log ++ [e] = (earlier ++ f :: later) ++ [last] := by
        rw [hsplit]
        simp
      obtain ⟨hlog', -⟩ := List.append_inj' hsplit' rfl
      exact hlog earlier f later hlog'

/-- A job that was started is not pending again: what a start has seen is that the job was pending. -/
theorem startsOf_le_one {log : List Change} (hclean : Clean log)
    (hlegal : ∀ e ∈ log, e.legal = true) (id : ℕ) :
    startsOf id log ≤ 1 ∧ (startsOf id log = 1 →
      statusAfter id log ≠ none ∧ statusAfter id log ≠ some .pending) := by
  induction log using List.reverseRecOn with
  | nil => simp [startsOf]
  | append_singleton log e ih =>
    obtain ⟨hlog, hseen⟩ := clean_concat.mp hclean
    obtain ⟨hle, hafter⟩ := ih hlog fun f hf => hlegal f (List.mem_append_left _ hf)
    have he := hlegal e (by simp)
    have hcount : startsOf id (log ++ [e]) =
        startsOf id log + if e.job = id ∧ e.new = .running then 1 else 0 := by
      simp [startsOf, List.countP_append, List.countP_cons]
    rw [hcount, statusAfter_concat]
    by_cases hid : e.job = id
    · rw [hid] at hseen
      obtain ⟨job, seen, new⟩ := e
      simp only at hid hseen he ⊢
      have hzero : new = .running → startsOf id log = 0 := by
        rintro rfl
        have hpending : seen = some .pending := by
          revert he
          rcases seen with - | seen
          · simp [Change.legal]
          · cases seen <;> simp [Change.legal]
        by_contra hne
        exact (hafter (by omega)).2 (hseen.symm.trans hpending)
      have hnew : new = .pending → startsOf id log = 0 := by
        rintro rfl
        have hnone : seen = none := by
          revert he
          rcases seen with - | seen
          · simp
          · cases seen <;> simp [Change.legal]
        by_contra hne
        exact (hafter (by omega)).1 (hseen.symm.trans hnone)
      by_cases hrun : new = .running
      · have := hzero hrun
        simp [hid, hrun, this]
      · refine ⟨by simp [hrun, hle], ?_⟩
        intro hone
        refine ⟨by simp [hid], ?_⟩
        simp only [hid, if_true, ne_eq, Option.some.injEq]
        intro hpending
        have := hnew hpending
        simp [hrun, this] at hone
    · simpa [hid] using ⟨hle, hafter⟩

/-! ### Rules -/

/-- At most one job of a stream is active. -/
def OneActive (rows : Rows) : Prop :=
  ∀ id id' job job', jobAt id rows = some job → jobAt id' rows = some job' →
    job.status.active = true → job'.status.active = true → job.streamId = job'.streamId → id = id'

structure Inv (c : Committed Key Job Change) : Prop where
  nodup : (c.rows.map Prod.fst).Nodup
  tracked : ∀ id, (jobAt id c.rows).map (·.status) = statusAfter id c.log
  legal : ∀ e ∈ c.log, e.legal = true
  oneActive : Clean c.log → OneActive c.rows

structure Guarantee (locks : List Key) (c d : Committed Key Job Change) : Prop where
  log : ∃ events, d.log = c.log ++ events ∧ events.length ≤ 1
  stays : ∀ id job, jobAt id c.rows = some job →
    ∃ job', jobAt id d.rows = some job' ∧ job'.streamId = job.streamId
  active : Clean d.log → ∀ id job', jobAt id d.rows = some job' → job'.status.active = true →
    .stream job'.streamId ∈ locks ∨
      ∃ job, jobAt id c.rows = some job ∧ job.status.active = true ∧ job.streamId = job'.streamId

def rules : Rules Key Job Change := { inv := Inv, guarantee := Guarantee }

/-- The session has a copy of this job, maybe an old one. -/
def CopyOf (id : ℕ) (copy : Job) (c : Committed Key Job Change) : Prop :=
  ∃ job, jobAt id c.rows = some job ∧ job.streamId = copy.streamId

/-- No other job of the stream is active. -/
def NoOther (id streamId : ℕ) (c : Committed Key Job Change) : Prop :=
  Clean c.log → ∀ id' job, id' ≠ id → jobAt id' c.rows = some job → job.streamId = streamId →
    job.status.active = false

variable {locks : List Key} {c d : Committed Key Job Change} {id streamId : ℕ}

theorem clean_of_append {log events : List Change} (h : Clean (log ++ events)) : Clean log := by
  intro earlier e later hlog
  exact h earlier e (later ++ events) (by simp [hlog])

theorem CopyOf.others {copy : Job} (h : CopyOf id copy c) (hd : rules.Others locks c d) :
    CopyOf id copy d := by
  refine hd.keeps (P := CopyOf id copy) ?_ h
  rintro held b b' - - hguarantee ⟨job, hjob, hstream⟩
  obtain ⟨job', hjob', hsame⟩ := hguarantee.stays id job hjob
  exact ⟨job', hjob', hsame.trans hstream⟩

/-- Under the stream's lock no other job becomes active. -/
theorem NoOther.others (h : NoOther id streamId c) (hlock : .stream streamId ∈ locks)
    (hd : rules.Others locks c d) : NoOther id streamId d := by
  refine hd.keeps (P := NoOther id streamId) ?_ h
  intro held b b' hdisjoint _ hguarantee hb hclean id' job hne hjob hstream
  obtain ⟨events, hlog, -⟩ := hguarantee.log
  by_contra hactive
  have hactive' : job.status.active = true := by simpa using hactive
  rcases hguarantee.active hclean id' job hjob hactive' with hheld | ⟨old, hold, hwas, hsame⟩
  · rw [hstream] at hheld
    exact hdisjoint hheld hlock
  · have hclean' : Clean b.log := clean_of_append (hlog ▸ hclean)
    rw [hb hclean' id' old hne hold (hsame.trans hstream)] at hwas
    cases hwas

/-! ### Commits -/

theorem safe_commit_nothing {next : Code} (hc : Inv c)
    (hnext : ∀ d, Inv d → rules.Safe next [] [] d) :
    rules.Safe (.commit [] next) locks [] c := by
  intro d hd
  have hinv : Inv d := hd.inv hc
  have hsame : (⟨applyWrites [] d.rows, d.log ++ []⟩ : Committed Key Job Change) = d := by
    rw [List.append_nil]
    rfl
  rw [hsame]
  refine ⟨⟨⟨[], by simp, by simp⟩, ?_, ?_⟩, hinv, hnext d hinv⟩
  · intro id job hjob
    exact ⟨job, hjob, rfl⟩
  · intro _ id job hjob hactive
    exact .inr ⟨job, hjob, hactive, rfl⟩

/-- The row of a job after its status was written. -/
theorem jobAt_update {f : Job → Job} {rows : Rows} (id' : ℕ) :
    jobAt id' (applyWrites [(.job id, Option.map f)] rows) =
      if id = id' then (jobAt id rows).map f else jobAt id' rows := by
  unfold jobAt
  show Dict.get? (Key.job id') (put (.job id) _ rows) = _
  rw [get?_put]
  simp only [Key.job.injEq]

/-- A job that is active after a change was running before, unless the change is a start. -/
theorem active_of_legal {seen : Option Status} {new : Status}
    (hlegal : (⟨id, seen, new⟩ : Change).legal = true) (hactive : new.active = true) :
    new = .running ∨ seen = some .running := by
  cases new with
  | running => exact .inl rfl
  | cancelling =>
    right
    revert hlegal
    rcases seen with - | seen
    · simp [Change.legal]
    · cases seen <;> simp [Change.legal]
  | pending => cases hactive
  | cancelled => cases hactive
  | completed => cases hactive
  | failed => cases hactive

section status

variable {copy : Job} {new : Status} {f : Job → Job}

/-- Where the change is clean, another active job of the stream was the only one before. -/
theorem no_other_of_clean {job : Job} (hc : Inv c) (hjob : jobAt id c.rows = some job)
    (hcopy : job.streamId = copy.streamId)
    (hlegal : (⟨id, some copy.status, new⟩ : Change).legal = true)
    (hstart : new = .running → NoOther id copy.streamId c)
    (hclean : Clean (c.log ++ [⟨id, some copy.status, new⟩])) (hactive : new.active = true)
    {id' : ℕ} {job' : Job} (hne : id' ≠ id) (hjob' : jobAt id' c.rows = some job')
    (hsame : job'.streamId = job.streamId) : job'.status.active = false := by
  obtain ⟨hlog, hseen⟩ := clean_concat.mp hclean
  have hstatus : copy.status = job.status := by
    have htracked := hc.tracked id
    rw [hjob, ← hseen] at htracked
    exact (Option.some.inj htracked).symm
  rcases active_of_legal hlegal hactive with hrunning | hseen
  · exact hstart hrunning hlog id' job' hne hjob' (hsame.trans hcopy)
  · by_contra hother
    have hwas : job.status.active = true := by
      rw [← hstatus, Option.some.inj hseen]
      rfl
    exact hne (hc.oneActive hlog id' id job' job hjob' hjob (by simpa using hother) hwas hsame)

variable (locks) in
theorem status_commit (hc : Inv c) (hcopy : CopyOf id copy c)
    (hlegal : (⟨id, some copy.status, new⟩ : Change).legal = true)
    (hstream : ∀ row, (f row).streamId = row.streamId)
    (hstart : new = .running → .stream copy.streamId ∈ locks ∧ NoOther id copy.streamId c) :
    Guarantee locks c ⟨applyWrites [(.job id, Option.map fun row => { f row with status := new })]
        c.rows, c.log ++ [⟨id, some copy.status, new⟩]⟩ ∧
      Inv ⟨applyWrites [(.job id, Option.map fun row => { f row with status := new })] c.rows,
        c.log ++ [⟨id, some copy.status, new⟩]⟩ := by
  obtain ⟨job, hjob, hcopy⟩ := hcopy
  have hview : ∀ id', jobAt id'
      (applyWrites [(.job id, Option.map fun row => { f row with status := new })] c.rows) =
        if id = id' then some { f job with status := new } else jobAt id' c.rows := by
    intro id'
    rw [jobAt_update, hjob]
    rfl
  have hother : Clean (c.log ++ [⟨id, some copy.status, new⟩]) → new.active = true →
      ∀ {id' : ℕ} {job' : Job}, id' ≠ id → jobAt id' c.rows = some job' →
      job'.streamId = job.streamId → job'.status.active = false := by
    intro hclean hactive id' job'
    exact no_other_of_clean hc hjob hcopy hlegal (fun hnew => (hstart hnew).2) hclean hactive
  refine ⟨⟨⟨_, rfl, by simp⟩, ?_, ?_⟩, ?_⟩
  · intro id' job' hjob'
    rw [hview id']
    by_cases hid : id = id'
    · subst hid
      obtain rfl := Option.some.inj (hjob.symm.trans hjob')
      exact ⟨_, if_pos rfl, hstream job⟩
    · exact ⟨job', by rw [if_neg hid, hjob'], rfl⟩
  · intro hclean id' job' hjob' hactive
    rw [hview id'] at hjob'
    by_cases hid : id = id'
    · subst hid
      rw [if_pos rfl] at hjob'
      obtain rfl := Option.some.inj hjob'
      have hstream' : (f job).streamId = copy.streamId := (hstream job).trans hcopy
      rcases active_of_legal hlegal hactive with hrunning | hseen
      · left
        show Key.stream (f job).streamId ∈ locks
        rw [hstream']
        exact (hstart hrunning).1
      · right
        obtain ⟨hlog, hseen'⟩ := clean_concat.mp hclean
        have htracked := hc.tracked id
        rw [hjob, ← hseen', hseen] at htracked
        have hrunning : job.status = .running := Option.some.inj htracked
        refine ⟨job, hjob, ?_, (hstream job).symm⟩
        rw [hrunning]
        rfl
    · rw [if_neg hid] at hjob'
      exact .inr ⟨job', hjob', hactive, rfl⟩
  · refine ⟨nodup_applyWrites hc.nodup _, ?_, ?_, ?_⟩
    · intro id'
      rw [hview id', statusAfter_concat]
      by_cases hid : id = id'
      · simp [hid]
      · simp only [hid, if_false]
        exact hc.tracked id'
    · intro e he
      rcases List.mem_append.mp he with he | he
      · exact hc.legal e he
      · rw [List.mem_singleton.mp he]
        exact hlegal
    · intro hclean id₁ id₂ job₁ job₂ hjob₁ hjob₂ hactive₁ hactive₂ hsame
      rw [hview] at hjob₁ hjob₂
      by_cases h₁ : id = id₁
      · by_cases h₂ : id = id₂
        · exact h₁.symm.trans h₂
        · rw [if_pos h₁] at hjob₁
          rw [if_neg h₂] at hjob₂
          obtain rfl := Option.some.inj hjob₁
          have := hother hclean hactive₁ (Ne.symm h₂) hjob₂ (hsame.symm.trans (hstream job))
          rw [this] at hactive₂
          cases hactive₂
      · by_cases h₂ : id = id₂
        · rw [if_neg h₁] at hjob₁
          rw [if_pos h₂] at hjob₂
          obtain rfl := Option.some.inj hjob₂
          have := hother hclean hactive₂ (Ne.symm h₁) hjob₁ (hsame.trans (hstream job))
          rw [this] at hactive₁
          cases hactive₁
        · rw [if_neg h₁] at hjob₁
          rw [if_neg h₂] at hjob₂
          exact hc.oneActive (clean_of_append hclean) id₁ id₂ job₁ job₂ hjob₁ hjob₂ hactive₁
            hactive₂ hsame

/-- A status that the code may write over the one its copy has is written. A start needs the
stream to itself. -/
theorem safe_saveStatus {next : Code} (hc : Inv c) (hcopy : CopyOf id copy c)
    (hlegal : (⟨id, some copy.status, new⟩ : Change).legal = true)
    (hstream : ∀ row, (f row).streamId = row.streamId)
    (hstart : new = .running → .stream copy.streamId ∈ locks ∧ NoOther id copy.streamId c)
    (hnext : ∀ d, Inv d → rules.Safe next [] [] d) :
    rules.Safe (saveStatus id copy new f next) locks [] c := by
  intro e he d hd
  have hinv : Inv d := hd.inv (he.inv hc)
  obtain ⟨hguarantee, hafter⟩ := status_commit (.job id :: locks) hinv
    ((hcopy.others he).others hd) hlegal hstream fun hnew =>
      ⟨List.mem_cons_of_mem _ (hstart hnew).1,
        ((hstart hnew).2.others (hstart hnew).1 he).others
          (List.mem_cons_of_mem _ (hstart hnew).1) hd⟩
  exact ⟨hguarantee, hafter, hnext _ hafter⟩

end status

/-! ### Programs -/

section programs

variable {process : ℕ} {now : ℤ} {next : Code} {copy : Option Job}

theorem safe_onCoordinator {f : Coordinator → Coordinator} {next : Coordinator → Code}
    {ws : List (Write Key Job)} (h : ∀ coordinator, rules.Safe (next coordinator) locks ws c) :
    rules.Safe (onCoordinator process f next) locks ws c :=
  fun m => h (m process)

theorem safe_isCancelRequested {next : Bool → Code} {ws : List (Write Key Job)}
    (h : ∀ requested, rules.Safe (next requested) locks ws c) :
    rules.Safe (isCancelRequested process id next) locks ws c :=
  safe_onCoordinator fun _ => h _

theorem safe_isJobOwned {next : Bool → Code} {ws : List (Write Key Job)}
    (h : ∀ owned, rules.Safe (next owned) locks ws c) :
    rules.Safe (isJobOwned process id next) locks ws c :=
  safe_onCoordinator fun _ => h _

/-- A copy the session has is one of the job. -/
def CopyOk (id : ℕ) (copy : Option Job) (c : Committed Key Job Change) : Prop :=
  ∀ job ∈ copy, CopyOf id job c

theorem copyOk_read : CopyOk id (jobAt id c.rows) c := by
  intro job hjob
  exact ⟨job, hjob, rfl⟩

theorem safe_getBackfillJob {next : Option Job → Code} (hc : Inv c) (hcopy : CopyOk id copy c)
    (hnone : ∀ d, Inv d → rules.Safe (next none) [] [] d)
    (hsome : ∀ job d, Inv d → CopyOf id job d → rules.Safe (next (some job)) [] [] d) :
    rules.Safe (getBackfillJob copy id next) [] [] c := by
  unfold getBackfillJob
  cases copy with
  | some job => exact hsome job c hc (hcopy job rfl)
  | none =>
    intro d hd
    beta_reduce
    cases hjob : jobAt id (applyWrites [] d.rows) with
    | none => exact hnone d (hd.inv hc)
    | some job => exact hsome job d (hd.inv hc) ⟨job, hjob, rfl⟩

/-- The locked query finds a copy of the job, under the locks held so far. -/
theorem safe_getBackfillJobForUpdate {next : Option Job → Code} (hc : Inv c)
    (hcopy : CopyOk id copy c) (hnone : ∀ d, Inv d → rules.Safe (next none) locks [] d)
    (hsome : ∀ job d, (∀ copied ∈ copy, job = copied) → Inv d → CopyOf id job d →
      rules.Safe (next (some job)) (.job id :: locks) [] d) :
    rules.Safe (getBackfillJobForUpdate copy id next) locks [] c := by
  intro d hd
  beta_reduce
  cases hrow : Dict.get? (Key.job id) (applyWrites [] d.rows) with
  | none => exact hnone d (hd.inv hc)
  | some row =>
    cases copy with
    | none => exact hsome row d (by simp) (hd.inv hc) ⟨row, hrow, rfl⟩
    | some copied =>
      exact hsome copied d (by simp) (hd.inv hc) ((hcopy copied rfl).others hd)

theorem completedOnce_streamId (job row : Job) : (completedOnce job now row).streamId = row.streamId := by
  unfold completedOnce
  split_ifs <;> rfl

theorem safe_cancelTerminal (hc : Inv c) (hcopy : CopyOk id copy c)
    (hnext : ∀ d, Inv d → rules.Safe next [] [] d) :
    rules.Safe (cancelTerminal process id now copy next) [] [] c := by
  refine safe_getBackfillJob hc hcopy hnext ?_
  intro job d hd hjob
  dsimp only
  split_ifs with hactive
  · exact hnext d hd
  · refine safe_saveStatus hd hjob ?_ (completedOnce_streamId job) (by simp) ?_
    · revert hactive
      cases job.status <;> simp [Status.active, Change.legal]
    · intro e he
      refine safe_commit_nothing he fun f hf => safe_onCoordinator fun _ => hnext f hf

theorem safe_failJob {message : String} (hc : Inv c) (hcopy : CopyOk id copy c)
    (hnext : ∀ d, Inv d → rules.Safe next [] [] d) :
    rules.Safe (failJob id now copy message next) [] [] c := by
  refine safe_getBackfillJob hc hcopy hnext ?_
  intro job d hd hjob
  dsimp only
  split_ifs with hactive
  · exact hnext d hd
  · refine safe_saveStatus hd hjob ?_ (fun _ => rfl) (by simp) fun e he =>
      safe_commit_nothing he hnext
    revert hactive
    cases job.status <;> simp [Status.active, Change.legal]

/-- A running job is given the status its work ended in. -/
theorem safe_endRunning {job : Job} {new : Status} {f : Job → Job} (hc : Inv c)
    (hcopy : CopyOf id job c) (hrunning : job.status = .running)
    (hnew : new = .completed ∨ new = .failed) (hstream : ∀ row, (f row).streamId = row.streamId)
    (hnext : ∀ d, Inv d → rules.Safe next [] [] d) :
    rules.Safe (saveStatus id job new f (emitEvent next)) [] [] c := by
  refine safe_saveStatus hc hcopy ?_ hstream ?_ fun e he => safe_commit_nothing he hnext
  · rw [hrunning]
    rcases hnew with rfl | rfl <;> rfl
  · rintro rfl
    rcases hnew with h | h <;> cases h

theorem safe_afterReplay {outcome : String} (hc : Inv c)
    (hnext : ∀ d, Inv d → rules.Safe next [] [] d) :
    rules.Safe (afterReplay process id now outcome next) [] [] c := by
  refine safe_isCancelRequested fun requested => ?_
  split_ifs with hrequested
  · exact safe_cancelTerminal hc (by simp [CopyOk]) hnext
  · refine safe_getBackfillJob hc (by simp [CopyOk]) hnext ?_
    intro job d hd hjob
    refine safe_isCancelRequested fun requested' => ?_
    split_ifs with hcancel hrunning
    · exact safe_cancelTerminal hd (by simpa [CopyOk] using hjob) hnext
    · exact hnext d hd
    · unfold completeReplay
      have hstatus : job.status = .running := by simpa using hrunning
      split_ifs with hlock
      · exact safe_endRunning hd hjob hstatus (.inr rfl) (fun _ => rfl) hnext
      · exact safe_endRunning hd hjob hstatus (.inl rfl) (fun _ => rfl) hnext

theorem safe_runReplayJob {replayed : Replayed} (hc : Inv c) (hcopy : CopyOk id copy c)
    (hnext : ∀ d, Inv d → rules.Safe next [] [] d) :
    rules.Safe (runReplayJob process id now replayed copy next) [] [] c := by
  refine safe_getBackfillJob hc hcopy hnext ?_
  intro job d hd hjob
  have hok : CopyOk id (some job) d := by simpa [CopyOk] using hjob
  dsimp only
  split_ifs with hactive
  · exact hnext d hd
  · refine safe_isCancelRequested fun requested => ?_
    split_ifs with hcancel
    · exact safe_cancelTerminal hd hok hnext
    · cases job.options.window with
      | missing => exact safe_failJob hd hok hnext
      | invalid error => exact safe_failJob hd hok hnext
      | times startTime endTime =>
        by_cases horder : startTime ≥ endTime
        · simp only [horder, if_true]
          exact safe_failJob hd hok hnext
        · simp only [horder, if_false]
          refine safe_commit_nothing hd fun e he => ?_
          cases replayed with
          | contextError message => exact safe_failJob he (by simp [CopyOk]) hnext
          | raised message => exact safe_failJob he (by simp [CopyOk]) hnext
          | finished outcome => exact safe_afterReplay he hnext

/-- A write that leaves the row as it is. -/
theorem safe_saveProgress (hc : Inv c) (hnext : ∀ d, Inv d → rules.Safe next [] [] d) :
    rules.Safe (.write (.job id) (fun row => row) (.commit [] next)) [] [] c := by
  intro e he d hd
  have hinv : Inv d := hd.inv (he.inv hc)
  have hview : ∀ id', jobAt id' (applyWrites [(.job id, fun row => row)] d.rows) =
      jobAt id' d.rows := by
    intro id'
    show Dict.get? (Key.job id') (put (.job id) (Dict.get? (.job id) d.rows) d.rows) = _
    rw [get?_put]
    split_ifs with hid
    · rw [hid]
      rfl
    · rfl
  have hafter : Inv ⟨applyWrites [(.job id, fun row => row)] d.rows, d.log ++ []⟩ := by
    refine ⟨nodup_applyWrites hinv.nodup _, ?_, ?_, ?_⟩
    · intro id'
      rw [hview id', List.append_nil]
      exact hinv.tracked id'
    · rw [List.append_nil]
      exact hinv.legal
    · intro hclean id₁ id₂ job₁ job₂ hjob₁ hjob₂
      rw [hview] at hjob₁ hjob₂
      exact hinv.oneActive (clean_of_append hclean) id₁ id₂ job₁ job₂ hjob₁ hjob₂
  refine ⟨⟨⟨[], by simp, by simp⟩, ?_, ?_⟩, hafter, hnext _ hafter⟩
  · intro id' job hjob
    exact ⟨job, (hview id').trans hjob, rfl⟩
  · intro _ id' job hjob hactive
    exact .inr ⟨job, (hview id').symm.trans hjob, hactive, rfl⟩

theorem safe_runDryLifecycle (hc : Inv c) (hcopy : CopyOk id copy c)
    (hnext : ∀ d, Inv d → rules.Safe next [] [] d) :
    rules.Safe (runDryLifecycle process id now copy next) [] [] c := by
  refine safe_getBackfillJob hc hcopy hnext ?_
  intro job d hd hjob
  dsimp only
  split_ifs with hactive
  · exact hnext d hd
  · refine safe_isCancelRequested fun requested => ?_
    split_ifs with hcancel
    · exact safe_cancelTerminal hd (by simpa [CopyOk] using hjob) hnext
    · refine safe_commit_nothing hd fun e he => safe_commit_nothing he fun f hf =>
        safe_commit_nothing hf fun g hg => ?_
      refine safe_getBackfillJob hg (by simp [CopyOk]) hnext ?_
      intro again h hh hagain
      refine safe_isCancelRequested fun requested' => ?_
      split_ifs with hcancel' hrunning hcomplete
      · exact safe_cancelTerminal hh (by simpa [CopyOk] using hagain) hnext
      · exact hnext h hh
      · exact safe_endRunning hh hagain (by simpa using hrunning) (.inl rfl) (fun _ => rfl) hnext
      · exact safe_saveProgress hh hnext

theorem safe_startJob {replayed : Replayed} (hc : Inv c) (hcopy : CopyOk id copy c)
    (hnext : ∀ d, Inv d → rules.Safe next [] [] d) :
    rules.Safe (startJob process id now replayed copy next) [] [] c := by
  refine safe_onCoordinator fun _ => ?_
  have hrelease : ∀ d, Inv d → rules.Safe
      (onCoordinator process (·.releaseJobOwner id) fun _ => next) [] [] d :=
    fun d hd => safe_onCoordinator fun _ => hnext d hd
  split_ifs with howned
  · exact hnext c hc
  · refine safe_getBackfillJob hc hcopy hrelease ?_
    intro job d hd hjob
    have hok : CopyOk id (some job) d := by simpa [CopyOk] using hjob
    dsimp only
    split_ifs with hwindow
    · exact safe_runDryLifecycle hd hok hrelease
    · exact safe_runReplayJob hd hok hrelease

theorem safe_rollback_done {ws : List (Write Key Job)} :
    rules.Safe (M := Memory) (.rollback .done) locks ws c := fun _ _ => trivial

/-- The count that is zero leaves no other active job on the stream. -/
theorem noOther_of_count (h : ¬ activeOnStream streamId id c.rows > 0) : NoOther id streamId c := by
  intro _ id' job hne hjob hstream
  have hzero : activeOnStream streamId id c.rows = 0 := by omega
  have hrow := List.countP_eq_zero.mp hzero _ (Dict.mem_of_get? hjob)
  simpa [hstream, hne] using hrow

theorem safe_startBackfillJob {replayed : Replayed} (hc : Inv c) (hcopy : CopyOk id copy c) :
    rules.Safe (startBackfillJob process id now replayed copy) [] [] c := by
  refine safe_getBackfillJob hc hcopy (fun _ _ => trivial) ?_
  intro probe d hd hprobe e he
  refine safe_getBackfillJobForUpdate (he.inv hd) (by simpa [CopyOk] using hprobe.others he)
    (fun _ _ => safe_rollback_done) ?_
  intro job f hsame hf hjob
  obtain rfl := hsame probe rfl
  dsimp only
  by_cases hpending : job.status ≠ .pending
  · rw [if_pos hpending]
    exact safe_rollback_done
  · rw [if_neg hpending]
    intro g hg
    have hinv : Inv g := hg.inv hf
    have hstatus : job.status = .pending := by simpa using hpending
    beta_reduce
    by_cases hcount : activeOnStream job.streamId id (applyWrites [] g.rows) > 0
    · rw [if_pos hcount]
      exact safe_commit_nothing hinv fun _ _ => trivial
    · rw [if_neg hcount]
      refine safe_saveStatus hinv (hjob.others hg) (by rw [hstatus]; rfl) ?_ ?_ ?_
      · intro row
        split_ifs <;> rfl
      · intro _
        exact ⟨by simp, noOther_of_count hcount⟩
      · intro h hh k hk
        exact safe_startJob (hk.inv hh) copyOk_read fun _ _ => trivial

theorem safe_finalizeCancellingWithoutOwner {streamId : ℕ} (hc : Inv c) (hcopy : CopyOk id copy c) :
    rules.Safe (finalizeCancellingWithoutOwner process id streamId now copy) [] [] c := by
  intro d hd
  refine safe_getBackfillJobForUpdate (hd.inv hc) (fun job hjob => (hcopy job hjob).others hd)
    (fun _ _ => safe_rollback_done) ?_
  intro job e _ he hjob
  dsimp only
  split_ifs with hcancelling
  · exact safe_rollback_done
  · refine safe_isJobOwned fun owned => ?_
    have hstatus : job.status = .cancelling := by simpa using hcancelling
    split_ifs with howned
    · exact safe_rollback_done
    · exact safe_saveStatus he hjob (by rw [hstatus]; rfl) (completedOnce_streamId job) (by simp)
        fun f hf => safe_onCoordinator fun _ => trivial

theorem safe_cancelBackfillJob (hc : Inv c) :
    rules.Safe (cancelBackfillJob process id now) [] [] c := by
  refine safe_getBackfillJob hc (by simp [CopyOk]) (fun _ _ => trivial) ?_
  intro probe d hd hprobe
  have hcopied : ∀ {e : Committed Key Job Change}, rules.Others [] d e → CopyOk id (some probe) e :=
    fun he => by simpa [CopyOk] using hprobe.others he
  dsimp only
  cases probe.status with
  | pending =>
    intro e he
    refine safe_getBackfillJobForUpdate (he.inv hd) (hcopied he) (fun _ _ => safe_rollback_done) ?_
    intro job f _ hf hjob
    dsimp only
    split_ifs with hpending
    · exact safe_rollback_done
    · have hstatus : job.status = .pending := by simpa using hpending
      exact safe_saveStatus hf hjob (by rw [hstatus]; rfl) (fun _ => rfl) (by simp)
        fun g hg => safe_onCoordinator fun _ => trivial
  | running =>
    intro e he
    refine safe_getBackfillJobForUpdate (he.inv hd) (hcopied he) (fun _ _ => safe_rollback_done) ?_
    intro job f _ hf hjob
    dsimp only
    split_ifs with hrunning
    · exact safe_rollback_done
    · have hstatus : job.status = .running := by simpa using hrunning
      refine safe_onCoordinator fun _ => safe_saveStatus hf hjob (by rw [hstatus]; rfl)
        (fun _ => rfl) (by simp) ?_
      intro g hg h hh
      refine safe_isJobOwned fun owned => ?_
      split_ifs with howned
      · trivial
      · exact safe_finalizeCancellingWithoutOwner (hh.inv hg) copyOk_read
  | cancelling =>
    refine safe_onCoordinator fun _ => safe_isJobOwned fun owned => ?_
    split_ifs with howned
    · trivial
    · exact safe_finalizeCancellingWithoutOwner hd (by simpa [CopyOk] using hprobe)
  | cancelled => trivial
  | completed => trivial
  | failed => trivial

theorem safe_reconcileJob {message : String} {probe : Job} {kept ended : Code} (hc : Inv c)
    (hprobe : CopyOf id probe c) (hkept : rules.Safe kept [] [] c)
    (hended : ∀ d, Inv d → rules.Safe ended [] [] d) :
    rules.Safe (reconcileJob process id now message probe kept ended) [] [] c := by
  have hrollback : ∀ {locks : List Key} d, Inv d → rules.Safe (.rollback ended) locks [] d :=
    fun d hd e he => hended e (he.inv hd)
  have hclear : ∀ d, Inv d → rules.Safe (clearJobSession process id ended) [] [] d :=
    fun d hd => safe_onCoordinator fun _ => hended d hd
  refine safe_isJobOwned fun owned => ?_
  split_ifs with howned
  · exact hkept
  · intro d hd
    refine safe_getBackfillJobForUpdate (hd.inv hc) (by simpa [CopyOk] using hprobe.others hd)
      hrollback ?_
    intro job e _ he hjob
    dsimp only
    by_cases hactive : job.status.active = false
    · rw [if_pos hactive]
      exact hrollback e he
    · rw [if_neg hactive]
      refine safe_isJobOwned fun owned' => ?_
      by_cases howned' : owned' = true
      · rw [if_pos howned']
        exact hrollback e he
      · rw [if_neg howned']
        by_cases hrunning : job.status = .running
        · rw [if_pos hrunning]
          exact safe_saveStatus he hjob (by rw [hrunning]; rfl) (fun _ => rfl) (by simp) hclear
        · rw [if_neg hrunning]
          refine safe_saveStatus he hjob ?_ (completedOnce_streamId job) (by simp) hclear
          revert hactive hrunning
          cases job.status <;> simp [Status.active, Change.legal]

theorem safe_reconcileJobs {message : String} (probes : List (ℕ × Job)) (hc : Inv c)
    {fresh : Bool} (hprobes : fresh = true → ∀ probe ∈ probes, CopyOf probe.1 probe.2 c) :
    rules.Safe (reconcileJobs process now message fresh probes) [] [] c := by
  induction probes generalizing c fresh with
  | nil =>
    unfold reconcileJobs
    trivial
  | cons probe rest ih =>
    obtain ⟨id, probe⟩ := probe
    have hended : ∀ d, Inv d → rules.Safe (reconcileJobs process now message false rest) [] [] d :=
      fun d hd => ih hd (by simp)
    cases fresh with
    | true =>
      unfold reconcileJobs
      have hmem := hprobes rfl
      exact safe_reconcileJob hc (hmem (id, probe) List.mem_cons_self)
        (ih hc fun _ other hother => hmem other (List.mem_cons_of_mem _ hother)) hended
    | false =>
      unfold reconcileJobs
      intro d hd
      beta_reduce
      cases hjob : jobAt id (applyWrites [] d.rows) with
      | none => trivial
      | some again =>
        have hinv : Inv d := hd.inv hc
        exact safe_reconcileJob hinv ⟨again, hjob, rfl⟩ (hended d hinv) hended

theorem mem_activeJobs {rows : Rows} (h : (rows.map Prod.fst).Nodup) {probe : ℕ × Job}
    (hmem : probe ∈ activeJobs rows) : jobAt probe.1 rows = some probe.2 := by
  have hmem' := (List.perm_insertionSort _ _).mem_iff.mp hmem
  obtain ⟨⟨key, job⟩, hrow, hprobe⟩ := List.mem_filterMap.mp hmem'
  cases key with
  | stream id => simp at hprobe
  | job id =>
    simp only at hprobe
    split_ifs at hprobe with hactive
    obtain rfl := Option.some.inj hprobe
    exact Dict.get?_of_mem h hrow

theorem safe_reconcileOrphanedBackfillJobs (hc : Inv c) :
    rules.Safe (reconcileOrphanedBackfillJobs process now) [] [] c := by
  intro d hd
  have hinv : Inv d := hd.inv hc
  refine safe_reconcileJobs _ hinv ?_
  intro _ probe hprobe
  exact ⟨probe.2, mem_activeJobs hinv.nodup hprobe, rfl⟩

variable (locks) in
/-- The new job is pending: an active one was there before. -/
theorem insert_commit (job : Job) (hc : Inv c) (habsent : jobAt id c.rows = none)
    (hpending : job.status = .pending) :
    Guarantee locks c ⟨applyWrites [(.job id, inserted job)] c.rows,
        c.log ++ [⟨id, none, .pending⟩]⟩ ∧
      Inv ⟨applyWrites [(.job id, inserted job)] c.rows, c.log ++ [⟨id, none, .pending⟩]⟩ := by
  have hview : ∀ id', jobAt id' (applyWrites [(.job id, inserted job)] c.rows) =
      if id = id' then some job else jobAt id' c.rows := by
    intro id'
    simp [jobAt, applyWrites, inserted]
  have hold : ∀ id' job', jobAt id' (applyWrites [(.job id, inserted job)] c.rows) = some job' →
      job'.status.active = true → jobAt id' c.rows = some job' := by
    intro id' job' hjob hactive
    rw [hview id'] at hjob
    split_ifs at hjob with hid
    · rw [← Option.some.inj hjob, hpending] at hactive
      cases hactive
    · exact hjob
  refine ⟨⟨⟨_, rfl, by simp⟩, ?_, ?_⟩, nodup_applyWrites hc.nodup _, ?_, ?_, ?_⟩
  · intro id' job' hjob'
    refine ⟨job', ?_, rfl⟩
    rw [hview id', if_neg]
    · exact hjob'
    · rintro rfl
      rw [habsent] at hjob'
      cases hjob'
  · intro _ id' job' hjob' hactive
    exact .inr ⟨job', hold id' job' hjob' hactive, hactive, rfl⟩
  · intro id'
    rw [hview id', statusAfter_concat]
    by_cases hid : id = id'
    · simp [hid, hpending]
    · simp only [hid, if_false]
      exact hc.tracked id'
  · intro e he
    rcases List.mem_append.mp he with he | he
    · exact hc.legal e he
    · rw [List.mem_singleton.mp he]
      rfl
  · intro hclean id₁ id₂ job₁ job₂ hjob₁ hjob₂ hactive₁ hactive₂
    exact hc.oneActive (clean_of_append hclean) id₁ id₂ job₁ job₂ (hold id₁ job₁ hjob₁ hactive₁)
      (hold id₂ job₂ hjob₂ hactive₂) hactive₁ hactive₂

theorem safe_createBackfillJob {options : Options} (hc : Inv c)
    (hnext : ∀ d, Inv d → rules.Safe next [] [] d) :
    rules.Safe (createBackfillJob id streamId options next) [] [] c := by
  intro e he hnone d hd
  have habsent : jobAt id d.rows = none := (hd.get? List.mem_cons_self).trans hnone
  obtain ⟨hguarantee, hafter⟩ := insert_commit [.job id]
    { streamId := streamId, options := options } (hd.inv (he.inv hc)) habsent rfl
  exact ⟨hguarantee, hafter, safe_commit_nothing hafter hnext⟩

theorem safe_serve (request : Request) (hc : Inv c) : rules.Safe (serve request) [] [] c := by
  cases request with
  | create id streamId options => exact safe_createBackfillJob hc fun _ _ => trivial
  | replay process id streamId options now replayed =>
    refine safe_createBackfillJob hc fun d hd e he => ?_
    exact safe_startBackfillJob (he.inv hd) copyOk_read
  | start process id now replayed => exact safe_startBackfillJob hc (by simp [CopyOk])
  | cancel process id now => exact safe_cancelBackfillJob hc
  | reconcile process now => exact safe_reconcileOrphanedBackfillJobs hc
  | restart process =>
    unfold serve
    exact safe_onCoordinator fun _ => trivial

end programs

/-! ### Runs -/

/-- Every status is written over the one its session has seen. -/
def Fresh (s : State) (a : Action Request) : Prop :=
  ∀ e ∈ s.commits a, (jobAt e.job s.rows).map (·.status) = e.seen

instance (s : State) (a : Action Request) : Decidable (Fresh s a) :=
  inferInstanceAs (Decidable (∀ e ∈ s.commits a, _))

/-- A job in a terminal status keeps it. -/
def TerminalKept (s t : State) : Prop :=
  ∀ id job, jobAt id s.rows = some job → job.status.terminal = true →
    (jobAt id t.rows).map (·.status) = some job.status

theorem inv_empty : Inv State.initial.toCommitted where
  nodup := List.nodup_nil
  tracked _ := rfl
  legal := by
    intro e he
    cases he
  oneActive := by
    intro _ id id' job job' hjob
    cases hjob

theorem valid_initial : State.initial.Valid rules := ⟨inv_empty, by simp [State.initial], by simp [State.initial]⟩

/-- A fresh step leaves the history clean. -/
theorem clean_step {s : State} {a : Action Request} (hs : s.Valid rules) (hclean : Clean s.log)
    (hfresh : Fresh s a) : Clean (step serve s a).log := by
  have hlog := step_log serve s a
  have hone : (s.commits a).length ≤ 1 := by
    rcases (hs.step (a := a) fun r _ _ hc => safe_serve r hc).2 with hsame | ⟨locks, hguarantee⟩
    · have hnone : s.log ++ s.commits a = s.log := hlog.symm.trans (congrArg Committed.log hsame)
      have hnil : s.commits a = [] := by simpa using hnone
      simp [hnil]
    · obtain ⟨events, hevents, hle⟩ := hguarantee.log
      rw [List.append_cancel_left (hlog.symm.trans hevents)]
      exact hle
  rw [hlog]
  match hc : s.commits a with
  | [] =>
    rw [List.append_nil]
    exact hclean
  | [e] =>
    refine clean_concat.mpr ⟨hclean, ?_⟩
    rw [← hfresh e (by simp [hc])]
    exact hs.inv.tracked e.job
  | e :: f :: rest =>
    rw [hc] at hone
    simp at hone

theorem terminal_of_legal {e : Change} (h : e.legal = true) {status : Status}
    (hseen : e.seen = some status) : status.terminal = false := by
  obtain ⟨job, seen, new⟩ := e
  simp only at hseen
  subst hseen
  revert h
  cases status <;> cases new <;> simp [Change.legal, Status.terminal]

/-- No change of a commit is of a terminal job, by what it has seen. -/
theorem terminalKept_step {s : State} {a : Action Request} (hs : s.Valid rules)
    (hfresh : Fresh s a) : TerminalKept s (step serve s a) := by
  intro id job hjob hterminal
  have hvalid := (hs.step (a := a) fun r _ _ hc => safe_serve r hc).1
  rw [hvalid.inv.tracked id, step_log]
  have hstatus : statusAfter id s.log = some job.status := by
    rw [← hs.inv.tracked id, hjob]
    rfl
  have hnot : ∀ e ∈ s.commits a, e.job ≠ id := by
    rintro e he rfl
    have hseen := hfresh e he
    rw [hjob] at hseen
    have hlegal : e.legal = true := by
      refine hvalid.inv.legal e ?_
      rw [step_log]
      exact List.mem_append_right _ he
    rw [terminal_of_legal hlegal hseen.symm] at hterminal
    cases hterminal
  rw [statusAfter_append_of_forall_ne hnot, hstatus]

/-- In every interleaving in which every status is written over the one its session has seen:
terminal jobs keep their status, a job is started at most once, and a stream has at most one
active job. -/
theorem lifecycle_run (actions : List (Action Request))
    (h : Steps.Along (step serve) Fresh State.initial actions) :
    Steps.Along (step serve) (fun s a => TerminalKept s (step serve s a)) State.initial actions ∧
      (∀ id, startsOf id (Steps.run (step serve) State.initial actions).log ≤ 1) ∧
      OneActive (Steps.run (step serve) State.initial actions).rows := by
  have hstep : ∀ (s : State) a, (s.Valid rules ∧ Clean s.log) → Fresh s a →
      ((step serve s a).Valid rules ∧ Clean (step serve s a).log) := by
    rintro s a ⟨hs, hclean⟩ hfresh
    exact ⟨(hs.step (a := a) fun r _ _ hc => safe_serve r hc).1, clean_step hs hclean hfresh⟩
  have hinitial : State.initial.Valid rules ∧ Clean State.initial.log := ⟨valid_initial, clean_nil⟩
  obtain ⟨hvalid, hclean⟩ := Steps.run_invariant hstep hinitial h
  refine ⟨?_, ?_, hvalid.inv.oneActive hclean⟩
  · exact Steps.along_of_invariant hstep
      (fun s a hs hfresh => terminalKept_step hs.1 hfresh) hinitial h
  · intro id
    exact (startsOf_le_one hclean hvalid.inv.legal id).1

def runs (session statements : ℕ) : List (Action Request) := List.replicate statements (.run session)

/-- Two jobs of a stream, one after the other; the second is cancelled. -/
def orderlyRun : List (Action Request) :=
  [.start (.create 1 7 { dryRunComplete := true }), .start (.create 2 7 {})] ++ runs 0 3 ++ runs 1 3 ++
  [.start (.start 1 1 5 (.finished "completed"))] ++ runs 2 20 ++
  [.start (.start 2 2 8 (.finished "completed"))] ++ runs 3 20 ++
  [.start (.cancel 2 2 9)] ++ runs 4 20

theorem orderlyRun_lifecycle :
    (jobAt 2 (Steps.run (step serve) State.initial orderlyRun).rows).map (·.status) =
        some .cancelled ∧
      OneActive (Steps.run (step serve) State.initial orderlyRun).rows :=
  ⟨by decide +kernel, (lifecycle_run orderlyRun (by decide +kernel)).2.2⟩

/-- A start reads the job, another one starts and completes it, and the first goes on with its
copy under the lock. -/
def staleStartRun : List (Action Request) :=
  [.start (.create 1 7 { dryRunComplete := true })] ++ runs 0 3 ++
  [.start (.start 1 1 5 (.finished "completed"))] ++ runs 1 1 ++
  [.start (.start 2 1 5 (.finished "completed"))] ++ runs 2 20 ++ runs 1 4

/-- A cancel reads the job while it runs; it completes, another job of the stream is started, and
the cancel goes on with its copy. -/
def staleCancelRun : List (Action Request) :=
  [.start (.create 1 7 { dryRunComplete := true }), .start (.create 2 7 {})] ++ runs 0 3 ++ runs 1 3 ++
  [.start (.start 1 1 5 (.finished "completed"))] ++ runs 2 6 ++
  [.start (.cancel 2 1 6)] ++ runs 3 1 ++ runs 2 20 ++
  [.start (.start 2 2 8 (.finished "completed"))] ++ runs 4 20 ++ runs 3 5

theorem staleStartRun_reopens :
    ¬ Steps.Along (step serve) (fun s a => TerminalKept s (step serve s a)) State.initial
      (staleStartRun ++ [.run 1]) := by
  intro h
  have hlast := Steps.Along.last h
  have hbefore : jobAt 1 (Steps.run (step serve) State.initial staleStartRun).rows = some {
      streamId := 7, status := .completed, startedAt := some 5, completedAt := some 5
      options := { dryRunComplete := true } } := by rfl
  have hafter := hlast 1 _ hbefore rfl
  revert hafter
  decide +kernel

theorem staleCancelRun_two_active :
    ¬ OneActive (Steps.run (step serve) State.initial staleCancelRun).rows := by
  intro h
  have hfirst : jobAt 1 (Steps.run (step serve) State.initial staleCancelRun).rows = some {
      streamId := 7, status := .cancelling, startedAt := some 5, completedAt := some 5
      options := { dryRunComplete := true } } := by decide +kernel
  have hsecond : jobAt 2 (Steps.run (step serve) State.initial staleCancelRun).rows = some {
      streamId := 7, status := .running, startedAt := some 8 } := by decide +kernel
  have hsame := h 1 2 _ _ hfirst hsecond rfl rfl rfl
  cases hsame

/-- With copies that are not current, a completed job is started again and a stream has two
active jobs. -/
theorem lifecycle_fails :
    (¬ Steps.Along (step serve) (fun s a => TerminalKept s (step serve s a)) State.initial
        (staleStartRun ++ [.run 1])) ∧
      startsOf 1 (Steps.run (step serve) State.initial (staleStartRun ++ [.run 1])).log = 2 ∧
      ¬ OneActive (Steps.run (step serve) State.initial staleCancelRun).rows :=
  ⟨staleStartRun_reopens, by rfl, staleCancelRun_two_active⟩

end Backfill
