import DataRelay.Replay.Service
import DataRelay.Lib.Steps

/-! Any number of replay calls and discards on one row, interleaved at their transactions. The
call that claimed last holds the claim. A call that comes back from its send checks the status
of the row and not whose claim it finds there, so a claim taken over while its call still runs
is written by two calls. The governance replay and the quarantine replay load the row before
they claim it and decide from that copy, which another transaction may have left behind. -/
namespace Replay

/-- A call from its claim on. It is in flight until it returns, raises or dies. -/
structure AttemptRecord where
  attempt : DeliveryAttempt
  inFlight : Bool := true
  sendStarted : Bool := false
  result : Option ReplayResult := none
  deriving DecidableEq

/-- The stored row, the calls that claimed it, in the order of their claims, and the copies that
sessions loaded and have not claimed with. -/
structure ReplayState where
  row : ReplayRow
  attempts : List AttemptRecord := []
  copies : List ReplayRow := []
  deriving DecidableEq

/-- A session loads the row, or a call claims it: in a session that has loaded it, or in one that
reads it under the lock. -/
inductive ReplayAction where
  | load
  | claim (loaded : Option ℕ) (c : ClaimInput)
  | send (i : ℕ)
  | finish (i : ℕ) (f : FinishInput)
  | crash (i : ℕ)
  | discard (lockFree : Bool) (now : ℤ)

namespace AttemptRecord

def started (r : AttemptRecord) : AttemptRecord :=
  { r with sendStarted := r.sendStarted || r.inFlight }

def ended (result : Option ReplayResult) (r : AttemptRecord) : AttemptRecord :=
  { r with inFlight := false, result := result.or r.result }

/-- The call is back from its send. -/
def sent (r : AttemptRecord) : Bool := r.inFlight && r.sendStarted

end AttemptRecord

namespace ReplayState

def update (s : ReplayState) (i : ℕ) (f : AttemptRecord → AttemptRecord) : ReplayState :=
  { s with attempts := s.attempts.modify i f }

def finish (s : ReplayState) (i : ℕ) (f : FinishInput) (r : AttemptRecord) : ReplayState :=
  match finishReplayEvent f r.attempt s.row with
  | .ok (row, result) => { s.update i (.ended (some result)) with row := row }
  | .error _ => s.update i (.ended none)

/-- What the claiming session's object of the row holds. -/
def held (s : ReplayState) : Option ℕ → Option ReplayRow
  | none => some s.row
  | some i => s.copies[i]?

/-- The copies once a session has claimed, or been refused, and ended. -/
def released (s : ReplayState) : Option ℕ → List ReplayRow
  | none => s.copies
  | some i => s.copies.eraseIdx i

def claim (s : ReplayState) (loaded : Option ℕ) (c : ClaimInput) (copy : ReplayRow) : ReplayState :=
  match claimReplayEvent c copy s.row with
  | .ok (row, attempt) => ⟨row, s.attempts ++ [{ attempt }], s.released loaded⟩
  | .error _ => { s with copies := s.released loaded }

def step (s : ReplayState) : ReplayAction → ReplayState
  | .load => { s with copies := s.copies ++ [s.row] }
  | .claim loaded c =>
    match s.held loaded with
    | some copy => s.claim loaded c copy
    | none => s
  | .send i => s.update i .started
  | .finish i f =>
    match s.attempts[i]? with
    | some r => if r.sent then s.finish i f r else s
    | none => s
  | .crash i => s.update i (.ended none)
  | .discard lockFree now =>
    match discardReplayEvent lockFree now s.row with
    | .ok row => { s with row := row }
    | .error _ => s

variable {s : ReplayState}

@[simp] theorem update_row (i : ℕ) (f : AttemptRecord → AttemptRecord) : (s.update i f).row = s.row :=
  rfl

@[simp] theorem update_length (i : ℕ) (f : AttemptRecord → AttemptRecord) :
    (s.update i f).attempts.length = s.attempts.length := by simp [update]

theorem update_getElem? (i j : ℕ) (f : AttemptRecord → AttemptRecord) :
    (s.update i f).attempts[j]? = s.attempts[j]?.map fun r => if i = j then f r else r := by
  simp only [update, List.getElem?_modify]
  split_ifs <;> simp

/-- What a finishing call does to the row and to the records. -/
theorem finish_cases (s : ReplayState) (i : ℕ) (f : FinishInput) (r : AttemptRecord) :
    ((∃ row result, finishReplayEvent f r.attempt s.row = .ok (row, result) ∧
        s.finish i f r = { s.update i (.ended (some result)) with row := row }) ∨
      s.finish i f r = s.update i (.ended none)) := by
  unfold finish
  split
  · rename_i row result h
    exact .inl ⟨row, result, h, rfl⟩
  · exact .inr rfl

theorem mem_of_held {loaded : Option ℕ} {copy : ReplayRow} (h : s.held loaded = some copy) :
    copy ∈ s.row :: s.copies := by
  cases loaded with
  | none => exact List.mem_cons.mpr (.inl (Option.some.inj h).symm)
  | some i => exact List.mem_cons_of_mem _ (List.mem_of_getElem? h)

theorem mem_of_mem_released {loaded : Option ℕ} {copy : ReplayRow}
    (h : copy ∈ s.released loaded) : copy ∈ s.copies := by
  cases loaded with
  | none => exact h
  | some i => exact List.mem_of_mem_eraseIdx h

/-- A claim that is granted. -/
def Granted (s : ReplayState) (c : ClaimInput) (copy : ReplayRow) : Prop :=
  (claimReplayEvent c copy s.row).isOk = true

theorem step_of_granted {loaded : Option ℕ} {c : ClaimInput} {copy : ReplayRow}
    (hheld : s.held loaded = some copy) (hok : s.Granted c copy) :
    s.step (.claim loaded c) = ⟨commitReplayClaim copy s.row (c.attempt copy) c.now,
      s.attempts ++ [{ attempt := c.attempt copy }], s.released loaded⟩ := by
  simp [step, hheld, claim, claimReplayEvent_of_isOk hok]

/-- Everything a step can do. -/
inductive StepCase (s : ReplayState) : ReplayAction → ReplayState → Prop where
  | idle {a : ReplayAction} : StepCase s a s
  | loaded : StepCase s .load { s with copies := s.copies ++ [s.row] }
  | refused {loaded : Option ℕ} {c : ClaimInput} :
    StepCase s (.claim loaded c) { s with copies := s.released loaded }
  | claimed {loaded : Option ℕ} {c : ClaimInput} {copy : ReplayRow}
    (hheld : s.held loaded = some copy) (hok : s.Granted c copy)
    (h : copy.status.terminal = false) :
    StepCase s (.claim loaded c) ⟨commitReplayClaim copy s.row (c.attempt copy) c.now,
      s.attempts ++ [{ attempt := c.attempt copy }], s.released loaded⟩
  | started {i : ℕ} : StepCase s (.send i) (s.update i .started)
  | failed {i : ℕ} {f : FinishInput} {r : AttemptRecord} {error : Delivery.SendError}
    {result : ReplayResult} (hr : s.attempts[i]? = some r) (hsent : r.sent = true)
    (h : s.row.status.terminal = false)
    (hres : result.attempt = { r.attempt with priorDeliveryUncertain := true }) :
    StepCase s (.finish i f)
      { s.update i (.ended (some result)) with row := failReplay s.row r.attempt f.now error }
  | replayed {i : ℕ} {f : FinishInput} {r : AttemptRecord} {result : ReplayResult}
    (hr : s.attempts[i]? = some r) (hsent : r.sent = true) (h : s.row.status.terminal = false)
    (hres : result.attempt = r.attempt) :
    StepCase s (.finish i f)
      { s.update i (.ended (some result)) with row := completeReplay s.row r.attempt f.now }
  | aborted {i : ℕ} {a : ReplayAction} (ha : a = .crash i ∨ ∃ f, a = .finish i f) :
    StepCase s a (s.update i (.ended none))
  | discarded {lockFree : Bool} {now : ℤ} (h : s.row.status.terminal = false) :
    StepCase s (.discard lockFree now)
      { s with row := { s.row with status := .discarded, updatedAt := now } }

theorem step_cases (s : ReplayState) (a : ReplayAction) : StepCase s a (s.step a) := by
  cases a with
  | load => exact .loaded
  | claim loaded c =>
    simp only [step]
    split
    · rename_i copy hheld
      unfold claim
      split
      · rename_i row attempt h
        obtain ⟨hp, hterminal⟩ := claimReplayEvent_ok h
        obtain ⟨rfl, rfl⟩ := Prod.mk.inj hp
        exact .claimed hheld (by simp [Granted, h, Except.isOk, Except.toBool]) hterminal
      · exact .refused
    · exact .idle
  | send i => exact .started
  | finish i f =>
    simp only [step]
    split
    · rename_i r hr
      split_ifs with hsent
      · rcases s.finish_cases i f r with ⟨row, result, hok, hfin⟩ | hfin
        · obtain ⟨hterminal, ⟨error, -, hrow, hres⟩ | ⟨-, hrow, hres⟩⟩ := finishReplayEvent_ok hok
          · obtain rfl : row = _ := hrow
            rw [hfin]
            exact .failed hr hsent hterminal hres
          · obtain rfl : row = _ := hrow
            rw [hfin]
            exact .replayed hr hsent hterminal hres
        · rw [hfin]
          exact .aborted (.inr ⟨f, rfl⟩)
      · exact .idle
    · exact .idle
  | crash i => exact .aborted (.inl rfl)
  | discard lockFree now =>
    simp only [step]
    split
    · rename_i row h
      obtain ⟨hterminal, rfl⟩ := discardReplayEvent_ok h
      exact .discarded hterminal
    · exact .idle

/-- The call that claimed last. -/
def Holds (s : ReplayState) (i : ℕ) : Prop := i + 1 = s.attempts.length

instance (s : ReplayState) (i : ℕ) : Decidable (s.Holds i) :=
  inferInstanceAs (Decidable (i + 1 = s.attempts.length))

/-- Only the holder of the claim writes the state a call ends in, and a terminal status is left
as it is. -/
def Owned (s : ReplayState) (a : ReplayAction) : Prop :=
  (s.row.status.terminal = true → (s.step a).row.status = s.row.status) ∧
    match a with
    | .finish i f => (s.step (.finish i f)).row ≠ s.row → s.Holds i
    | _ => True

/-- A claim that is granted leaves a terminal status as it is, which it does when the copy it
decides from is a claim itself, and else takes over no claim from a call that still runs. -/
def TakesOverEnded (s : ReplayState) : ReplayAction → Prop
  | .claim loaded c => ∀ copy, s.held loaded = some copy → s.Granted c copy →
    if s.row.status.terminal then copy.status = .replaying
    else ∀ r ∈ s.attempts, r.inFlight = false
  | _ => True

/-- Only the holder is in flight, except on a terminal row. -/
def Exclusive (s : ReplayState) : Prop :=
  s.row.status.terminal = false → ∀ i r, s.attempts[i]? = some r → r.inFlight = true → s.Holds i

theorem commitReplayClaim_status (copy row : ReplayRow) (attempt : DeliveryAttempt) (now : ℤ) :
    (commitReplayClaim copy row attempt now).status =
      if copy.status = .replaying then row.status else .replaying := by
  simp [commitReplayClaim, flushed, eq_comm]

/-- A terminal status changes only when a claim is granted to a stale copy. -/
theorem TakesOverEnded.status {a : ReplayAction} (hends : s.TakesOverEnded a)
    (h : s.row.status.terminal = true) : (s.step a).row.status = s.row.status := by
  have hcase := s.step_cases a
  generalize s.step a = s' at hcase
  cases hcase with
  | claimed hheld hok =>
    have hcopy := hends _ hheld hok
    rw [if_pos h] at hcopy
    rw [commitReplayClaim_status, if_pos hcopy]
  | failed _ _ hterminal => simp [hterminal] at h
  | replayed _ _ hterminal => simp [hterminal] at h
  | discarded hterminal => simp [hterminal] at h
  | _ => rfl

theorem Exclusive.update {i : ℕ} {f : AttemptRecord → AttemptRecord} (h : s.Exclusive)
    (hf : ∀ r, (f r).inFlight = true → r.inFlight = true) : (s.update i f).Exclusive := by
  intro hterminal j r hr hfl
  rw [update_getElem?] at hr
  obtain ⟨r', hr', rfl⟩ := Option.map_eq_some_iff.mp hr
  have hfl' : r'.inFlight = true := by
    split_ifs at hfl with hij
    · exact hf r' hfl
    · exact hfl
  simpa [Holds] using h hterminal j r' hr' hfl'

theorem Exclusive.step {a : ReplayAction} (h : s.Exclusive) (hends : s.TakesOverEnded a) :
    (s.step a).Exclusive := by
  by_cases hrow : s.row.status.terminal = true
  · intro hterminal
    rw [hends.status hrow, hrow] at hterminal
    cases hterminal
  have hrow : s.row.status.terminal = false := by simpa using hrow
  have hcase := s.step_cases a
  generalize s.step a = s' at hcase
  cases hcase with
  | idle => exact h
  | loaded => exact h
  | refused => exact h
  | claimed hheld hok =>
    have hnone : ∀ r ∈ s.attempts, r.inFlight = false := by
      have hends := hends _ hheld hok
      rwa [if_neg (by simp [hrow])] at hends
    intro _ j r hr hfl
    simp only [List.getElem?_append, List.getElem?_singleton] at hr
    split_ifs at hr with hlt hj
    · rw [hnone r (List.mem_of_getElem? hr)] at hfl
      cases hfl
    · simp only [Holds, List.length_append, List.length_singleton]
      omega
  | started => exact h.update fun r hr => hr
  | @failed i f r error result =>
    have hended := h.update (i := i) (f := .ended (some result)) fun r hr => by
      simp [AttemptRecord.ended] at hr
    exact fun _ => hended hrow
  | @replayed i f r result =>
    have hended := h.update (i := i) (f := .ended (some result)) fun r hr => by
      simp [AttemptRecord.ended] at hr
    exact fun _ => hended hrow
  | aborted => exact h.update fun r hr => by simp [AttemptRecord.ended] at hr
  | discarded => exact fun _ => h hrow

theorem Exclusive.owned {a : ReplayAction} (h : s.Exclusive) (hends : s.TakesOverEnded a) :
    s.Owned a := by
  refine ⟨hends.status, ?_⟩
  cases a with
  | finish i f =>
    intro hne
    have hcase := s.step_cases (.finish i f)
    generalize s.step (.finish i f) = s' at hcase hne
    cases hcase with
    | idle => exact absurd rfl hne
    | failed hr hsent hterminal => exact h hterminal _ _ hr (by simp_all [AttemptRecord.sent])
    | replayed hr hsent hterminal => exact h hterminal _ _ hr (by simp_all [AttemptRecord.sent])
    | aborted ha => exact absurd rfl hne
  | _ => trivial

/-- A finishing call that finds the row not terminal counts itself there. -/
theorem finish_retryCount {i : ℕ} {f : FinishInput} {r : AttemptRecord}
    (hr : s.attempts[i]? = some r) (hsent : r.sent = true) (hf : f.lockFree = true)
    (h : s.row.status.terminal = false) :
    (s.step (.finish i f)).row.retryCount = s.row.retryCount + 1 := by
  have hd : s.row.status ≠ .discarded := by rintro hd; simp [hd, ReplayStatus.terminal] at h
  have hp : s.row.status ≠ .replayed := by rintro hp; simp [hp, ReplayStatus.terminal] at h
  cases herr : f.sendError <;>
    simp [step, hr, hsent, finish, finishReplayEvent, hf, hd, hp, herr, failReplay, completeReplay]

/-- A call whose claim was taken over while it ran writes the row when it comes back. -/
theorem not_owned_after_takeover {loaded : Option ℕ} {c : ClaimInput} {copy : ReplayRow} {i : ℕ}
    {r : AttemptRecord} {f : FinishInput} (hr : s.attempts[i]? = some r) (hfl : r.inFlight = true)
    (hheld : s.held loaded = some copy) (hok : s.Granted c copy)
    (hrow : s.row.status.terminal = false) (hf : f.lockFree = true) :
    ¬ ((s.step (.claim loaded c)).step (.send i)).Owned (.finish i f) := by
  rw [s.step_of_granted hheld hok]
  rintro ⟨-, howned⟩
  have hi : i < s.attempts.length := (List.getElem?_eq_some_iff.mp hr).1
  generalize ht : ReplayState.step ⟨commitReplayClaim copy s.row (c.attempt copy) c.now,
    s.attempts ++ [{ attempt := c.attempt copy }], s.released loaded⟩ (.send i) = t at *
  have hrec : t.attempts[i]? = some r.started := by
    simp [← ht, step, update_getElem?, List.getElem?_append_left hi, hr]
  have hsent : r.started.sent = true := by simp [AttemptRecord.sent, AttemptRecord.started, hfl]
  have hterminal : t.row.status.terminal = false := by
    simp only [← ht, step, update_row, commitReplayClaim_status]
    split_ifs
    · exact hrow
    · rfl
  have hlen : t.attempts.length = s.attempts.length + 1 := by simp [← ht, step]
  have hcount := t.finish_retryCount hrec hsent hf hterminal
  have hholds := howned fun heq => by simp [heq] at hcount
  simp only [Holds, hlen] at hholds
  omega

/-- A claim granted on a terminal row to a copy that is no claim takes the status away. -/
theorem not_owned_of_terminal {loaded : Option ℕ} {c : ClaimInput} {copy : ReplayRow}
    (hheld : s.held loaded = some copy) (hok : s.Granted c copy)
    (hrow : s.row.status.terminal = true) (hcopy : copy.status ≠ .replaying) :
    ¬ s.Owned (.claim loaded c) := by
  rintro ⟨hstatus, -⟩
  have hkept := hstatus hrow
  rw [s.step_of_granted hheld hok, commitReplayClaim_status, if_neg hcopy] at hkept
  rw [← hkept] at hrow
  cases hrow

end ReplayState

/-- In a run in which no granted claim changes a terminal status or takes over a claim from a
call that still runs, only the holder of the claim writes the state a call ends in and a terminal
status never changes. From any state reached, a claim that does the one breaks the rule by
itself, and a claim that does the other breaks it when the call it overtook comes back. -/
theorem claim_ownership (row : ReplayRow) (actions : List ReplayAction) :
    (Steps.Along ReplayState.step ReplayState.TakesOverEnded { row } actions →
      Steps.Along ReplayState.step ReplayState.Owned { row } actions) ∧
    ∀ s loaded c copy, s = Steps.run ReplayState.step { row } actions →
      s.held loaded = some copy → s.Granted c copy →
        (s.row.status.terminal = true → copy.status ≠ .replaying →
          ¬ Steps.Along ReplayState.step ReplayState.Owned s [.claim loaded c]) ∧
        ∀ i r f, s.row.status.terminal = false → s.attempts[i]? = some r → r.inFlight = true →
          f.lockFree = true →
            ¬ Steps.Along ReplayState.step ReplayState.Owned s
              [.claim loaded c, .send i, .finish i f] := by
  have hinit : ({ row } : ReplayState).Exclusive := by simp [ReplayState.Exclusive]
  refine ⟨fun h => ?_, fun s loaded c copy _ hheld hok => ⟨?_, ?_⟩⟩
  · exact Steps.along_of_invariant (fun s a hs ha => hs.step ha) (fun s a hs ha => hs.owned ha)
      hinit h
  · rintro hrow hcopy ⟨howned, -⟩
    exact ReplayState.not_owned_of_terminal hheld hok hrow hcopy howned
  · rintro i r f hrow hr hfl hf ⟨-, -, howned, -⟩
    exact ReplayState.not_owned_after_takeover hr hfl hheld hok hrow hf howned

def storedRow : ReplayRow where
  id := 7
  streamId := 1
  destinationId := 3
  routeId := some 10
  dynamicRouteId := none
  failoverRouteId := none
  deliveryKind := .baseRoute
  protectedPayload := [[("id", .int 1)]]
  deliveryContext := ⟨"WEBHOOK_POST", none, ⟨"", 1, "", "WEBHOOK_POST", 10⟩⟩
  errorType := none
  errorMessage := none
  updatedAt := 0

/-- The first call is slower than the claim lasts; its time-out marks the row failed under the
second call. -/
def slowCallOvertaken : List ReplayAction :=
  [.claim none { now := 0, uuid := "a" }, .send 0, .claim none { now := 121000000, uuid := "b" },
    .send 1,
    .finish 0 { now := 122000000, sendError := some ⟨.httpTimeout, "ReadTimeout", none, "timed out"⟩ }]

/-- The row is discarded between the two reads of a governance replay. -/
def discardedUnderCopy : List ReplayAction :=
  [.load, .discard true 1, .claim (some 0) { now := 2, uuid := "a" }]

theorem slowCallOvertaken_not_owned :
    ¬ Steps.Along ReplayState.step ReplayState.Owned { row := storedRow } slowCallOvertaken ∧
    ¬ Steps.Along ReplayState.step ReplayState.Owned { row := storedRow } discardedUnderCopy := by
  constructor
  · rintro ⟨-, -, -, -, ⟨-, howned⟩, -⟩
    refine absurd (howned fun heq => ?_) (by decide)
    exact absurd (congrArg ReplayRow.status heq) (by decide)
  · rintro ⟨-, -, ⟨hstatus, -⟩, -⟩
    exact absurd (hstatus (by decide)) (by decide)

end Replay
