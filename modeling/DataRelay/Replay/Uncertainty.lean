import DataRelay.Replay.Ownership

/-! What a replay call tells about the calls before it. A claim taken over keeps the identity of
the one it takes over; a row that failed is claimed under a new identity, with nothing said of
the send that failed, and so is a row that a session read before another call claimed it. -/
namespace Replay
namespace ReplayState

variable {s : ReplayState}

/-- A call after one whose send has started reuses its key or reports the uncertainty. -/
def Disclosed (s : ReplayState) : Prop :=
  ∀ (i j : ℕ) (ri rj : AttemptRecord), i < j → s.attempts[i]? = some ri →
    s.attempts[j]? = some rj → ri.sendStarted = true →
    rj.attempt.idempotencyKey = ri.attempt.idempotencyKey ∨
      ∃ result : ReplayResult, rj.result = some result ∧ result.attempt.priorDeliveryUncertain = true

/-- A copy that takes a claim over: it is one, with a key of its own. -/
def TakesOver (copy : ReplayRow) : Prop :=
  copy.status = .replaying ∧ ∃ key, copy.attempt.idempotencyKey = some key ∧ key ≠ ""

/-- Every claim granted after the first takes one over. -/
def KeepsKey (s : ReplayState) : ReplayAction → Prop
  | .claim loaded c => s.attempts ≠ [] → ∀ copy, s.held loaded = some copy → s.Granted c copy →
    TakesOver copy
  | _ => True

/-- Before the first claim every session has read the row as it was, or discarded. From then on
all calls share one key, and with them every copy that takes a claim over. -/
structure SharedKey (start : ReplayRow) (s : ReplayState) : Prop where
  unclaimed : s.attempts = [] → ∀ copy ∈ s.row :: s.copies,
    copy.attempt = start.attempt ∧ (copy.status = start.status ∨ copy.status = .discarded)
  shared : s.attempts ≠ [] → ∃ key, (∀ r ∈ s.attempts, r.attempt.idempotencyKey = key) ∧
    ∀ copy ∈ s.row :: s.copies, TakesOver copy → copy.attempt.idempotencyKey = key

theorem mem_update {i : ℕ} {f : AttemptRecord → AttemptRecord} {r : AttemptRecord}
    (h : r ∈ (s.update i f).attempts) : ∃ q ∈ s.attempts, r = q ∨ r = f q := by
  obtain ⟨j, hj⟩ := List.mem_iff_getElem?.mp h
  rw [update_getElem?] at hj
  obtain ⟨q, hq, rfl⟩ := Option.map_eq_some_iff.mp hj
  refine ⟨q, List.mem_of_getElem? hq, ?_⟩
  split_ifs <;> simp

theorem update_attempts_ne_nil {i : ℕ} {f : AttemptRecord → AttemptRecord} :
    (s.update i f).attempts ≠ [] ↔ s.attempts ≠ [] := by
  simp only [ne_eq, ← List.length_eq_zero_iff, update_length]

end ReplayState

namespace ClaimInput

variable (c : ClaimInput) {row : ReplayRow}

theorem attempt_of_replaying {key : String} (hst : row.status = .replaying)
    (hkey : row.attempt.idempotencyKey = some key) (hne : key ≠ "") :
    (c.attempt row).idempotencyKey = row.attempt.idempotencyKey := by
  simp [attempt, hkey, hst, hne]

/-- A claim that takes nothing over has a key and a report of its own. -/
theorem attempt_of_not_replaying (hst : row.status ≠ .replaying) :
    c.attempt row = buildAttemptMeta row.id c.uuid c.now false := by
  have hid : c.attemptId row = c.uuid := by simp [attemptId, hst]
  unfold attempt
  split <;> simp [hst, hid]

end ClaimInput

namespace ReplayState

variable {s : ReplayState}

theorem SharedKey.disclosed {start : ReplayRow} (h : SharedKey start s) : s.Disclosed := by
  intro i j ri rj _ hi hj _
  obtain ⟨key, hkeys, -⟩ := h.shared (List.ne_nil_of_mem (List.mem_of_getElem? hi))
  left
  rw [hkeys rj (List.mem_of_getElem? hj), hkeys ri (List.mem_of_getElem? hi)]

/-- An update that changes no key, with a row or copies that take no other claim over. -/
theorem SharedKey.update {start : ReplayRow} {i : ℕ} {f : AttemptRecord → AttemptRecord}
    {row : ReplayRow} {copies : List ReplayRow} (h : SharedKey start s)
    (hkey : ∀ r, (f r).attempt = r.attempt)
    (hcopies : ∀ copy ∈ row :: copies, copy ∈ s.row :: s.copies ∨
      s.attempts ≠ [] ∧ copy.status ≠ .replaying) :
    SharedKey start ⟨row, (s.update i f).attempts, copies⟩ where
  unclaimed hnil copy hcopy := by
    have hnil : s.attempts = [] := by
      by_contra hne
      exact update_attempts_ne_nil.mpr hne hnil
    rcases hcopies copy hcopy with hmem | ⟨hne, -⟩
    · exact h.unclaimed hnil copy hmem
    · exact absurd hnil hne
  shared hne := by
    obtain ⟨key, hkeys, hshared⟩ := h.shared (update_attempts_ne_nil.mp hne)
    refine ⟨key, fun r hr => ?_, fun copy hcopy htakes => ?_⟩
    · obtain ⟨q, hq, rfl | rfl⟩ := mem_update hr
      · exact hkeys _ hq
      · rw [hkey]
        exact hkeys _ hq
    · rcases hcopies copy hcopy with hmem | ⟨-, hst⟩
      · exact hshared copy hmem htakes
      · exact absurd htakes.1 hst

/-- No claim and no outcome: the copies are old ones, apart from what a discard makes of the row. -/
theorem SharedKey.of_copies {start row : ReplayRow} {copies : List ReplayRow}
    (h : SharedKey start s)
    (hcopies : ∀ copy ∈ row :: copies, copy ∈ s.row :: s.copies ∨
      copy.attempt = s.row.attempt ∧ copy.status = .discarded) :
    SharedKey start ⟨row, s.attempts, copies⟩ where
  unclaimed hnil copy hcopy := by
    rcases hcopies copy hcopy with hmem | ⟨hattempt, hst⟩
    · exact h.unclaimed hnil copy hmem
    · exact ⟨hattempt.trans (h.unclaimed hnil _ List.mem_cons_self).1, .inr hst⟩
  shared hne := by
    obtain ⟨key, hkeys, hshared⟩ := h.shared hne
    refine ⟨key, hkeys, fun copy hcopy htakes => ?_⟩
    rcases hcopies copy hcopy with hmem | ⟨-, hst⟩
    · exact hshared copy hmem htakes
    · have hreplaying : copy.status = .replaying := htakes.1
      rw [hst] at hreplaying
      cases hreplaying

/-- The first claim: whatever row it was read from, all copies of a claim have its key. -/
theorem SharedKey.first {start copy : ReplayRow} {c : ClaimInput} {copies : List ReplayRow}
    (h : SharedKey start s) (hnil : s.attempts = []) (hcopy : copy ∈ s.row :: s.copies)
    (hgranted : copy.status.terminal = false) (hcopies : ∀ b ∈ copies, b ∈ s.copies) :
    SharedKey start ⟨commitReplayClaim copy s.row (c.attempt copy) c.now,
      s.attempts ++ [{ attempt := c.attempt copy }], copies⟩ := by
  have hstart := h.unclaimed hnil
  have hrow := (hstart _ List.mem_cons_self).1
  obtain ⟨hattempt, hst | hst⟩ := hstart copy hcopy
  · refine ⟨fun habs => by simp at habs, fun _ => ⟨(c.attempt copy).idempotencyKey, ?_, ?_⟩⟩
    · intro r hr
      obtain rfl := List.mem_singleton.mp (by simpa [hnil] using hr)
      rfl
    · intro b hb htakes
      rcases List.mem_cons.mp hb with rfl | hb
      · simp [commitReplayClaim, hattempt, ← hrow]
      · obtain ⟨hbattempt, hbst⟩ := hstart b (List.mem_cons_of_mem _ (hcopies b hb))
        obtain ⟨hreplaying, key, hkey, hne⟩ := htakes
        have hcopyst : copy.status = .replaying := by
          rcases hbst with hbst | hbst
          · rw [hst, ← hbst, hreplaying]
          · rw [hreplaying] at hbst
            cases hbst
        have hcopykey : copy.attempt.idempotencyKey = some key := by
          rw [hattempt, ← hbattempt, hkey]
        rw [hkey, c.attempt_of_replaying hcopyst hcopykey hne, hcopykey]
  · simp [hst, ReplayStatus.terminal] at hgranted

theorem SharedKey.step {start : ReplayRow} {a : ReplayAction} (h : SharedKey start s)
    (hkeeps : s.KeepsKey a) : SharedKey start (s.step a) := by
  have hended {i : ℕ} {r : AttemptRecord} {row : ReplayRow} {result : Option ReplayResult}
      (hr : s.attempts[i]? = some r) (hst : row.status ≠ .replaying) :
      SharedKey start { s.update i (.ended result) with row := row } := by
    have hne : s.attempts ≠ [] := List.ne_nil_of_mem (List.mem_of_getElem? hr)
    refine h.update (fun _ => rfl) fun copy hcopy => ?_
    rcases List.mem_cons.mp hcopy with rfl | hcopy
    · exact .inr ⟨hne, hst⟩
    · exact .inl (List.mem_cons_of_mem _ hcopy)
  have hcase := s.step_cases a
  generalize s.step a = s' at hcase
  cases hcase with
  | idle => exact h
  | loaded => exact h.of_copies fun copy hcopy => .inl (by simpa [or_comm] using hcopy)
  | refused =>
    exact h.of_copies fun copy hcopy =>
      .inl (List.mem_cons.mpr ((List.mem_cons.mp hcopy).imp id mem_of_mem_released))
  | @claimed loaded c copy hheld hok hterminal =>
    have hcopy := mem_of_held hheld
    by_cases hnil : s.attempts = []
    · exact h.first hnil hcopy hterminal fun b => mem_of_mem_released
    obtain ⟨key, hkeys, hshared⟩ := h.shared hnil
    have htakes := hkeeps hnil copy hheld hok
    have hattempt : (c.attempt copy).idempotencyKey = key := by
      obtain ⟨hst, k, hk, hne⟩ := id htakes
      rw [c.attempt_of_replaying hst hk hne, hshared copy hcopy htakes]
    refine ⟨fun habs => by simp at habs, fun _ => ⟨key, fun r hr => ?_, fun b hb hb' => ?_⟩⟩
    · rcases List.mem_append.mp hr with hr | hr
      · exact hkeys r hr
      · obtain rfl := List.mem_singleton.mp hr
        exact hattempt
    · rcases List.mem_cons.mp hb with rfl | hb
      · rcases flushed_eq_or copy.attempt (c.attempt copy) s.row.attempt with heq | ⟨-, heq⟩
        · simpa [commitReplayClaim, heq] using hattempt
        · obtain ⟨hst, hnamed⟩ := hb'
          rw [commitReplayClaim_status, if_pos htakes.1] at hst
          refine (congrArg DeliveryAttempt.idempotencyKey heq).trans
            (hshared s.row List.mem_cons_self ⟨hst, ?_⟩)
          simpa [commitReplayClaim, heq] using hnamed
      · exact hshared b (List.mem_cons_of_mem _ (mem_of_mem_released hb)) hb'
  | started => exact h.update (fun _ => rfl) fun copy hcopy => .inl hcopy
  | failed hr => exact hended hr (by simp [failReplay])
  | replayed hr => exact hended hr (by simp [completeReplay])
  | aborted => exact h.update (fun _ => rfl) fun copy hcopy => .inl hcopy
  | discarded =>
    refine h.of_copies fun copy hcopy => ?_
    rcases List.mem_cons.mp hcopy with rfl | hcopy
    · exact .inr ⟨rfl, rfl⟩
    · exact .inl (List.mem_cons_of_mem _ hcopy)

/-- A call that claims, sends and returns with nothing between. -/
theorem run_call {loaded : Option ℕ} {c : ClaimInput} {copy : ReplayRow}
    (hheld : s.held loaded = some copy) (hok : s.Granted c copy)
    (hst : copy.status ≠ .replaying) (now : ℤ) :
    ∃ row result copies, result.attempt = c.attempt copy ∧ Steps.run step s [.claim loaded c,
      .send s.attempts.length, .finish s.attempts.length { now }] =
        ⟨row, s.attempts ++ [⟨c.attempt copy, false, true, some result⟩], copies⟩ := by
  have hmodify (r : AttemptRecord) (f : AttemptRecord → AttemptRecord) :
      (s.attempts ++ [r]).modify s.attempts.length f = s.attempts ++ [f r] := by
    rw [List.modify_eq_take_cons_drop (by simp)]
    simp
  have hclaimed : (commitReplayClaim copy s.row (c.attempt copy) c.now).status = .replaying := by
    rw [commitReplayClaim_status, if_neg hst]
  simp only [Steps.run_cons, Steps.run_nil, step_of_granted hheld hok]
  simp [step, update, hmodify, AttemptRecord.started, AttemptRecord.sent, finish, finishReplayEvent,
    hclaimed, AttemptRecord.ended]

/-- A claim under a new key whose call succeeds hides the sends before it. -/
theorem not_disclosed_after_claim {loaded : Option ℕ} {c : ClaimInput} {copy : ReplayRow} {i : ℕ}
    {r : AttemptRecord} (now : ℤ) (hheld : s.held loaded = some copy) (hok : s.Granted c copy)
    (hst : copy.status ≠ .replaying) (hr : s.attempts[i]? = some r) (hsent : r.sendStarted = true)
    (hkey : r.attempt.idempotencyKey ≠
      (buildAttemptMeta copy.id c.uuid c.now false).idempotencyKey) :
    ¬ (Steps.run step s [.claim loaded c, .send s.attempts.length,
      .finish s.attempts.length { now }]).Disclosed := by
  have hi : i < s.attempts.length := (List.getElem?_eq_some_iff.mp hr).1
  have hattempt : c.attempt copy = buildAttemptMeta copy.id c.uuid c.now false :=
    c.attempt_of_not_replaying hst
  obtain ⟨row, result, copies, hres, hrun⟩ := run_call hheld hok hst now
  rw [hrun]
  intro h
  have hfirst : (s.attempts ++ [⟨c.attempt copy, false, true, some result⟩])[i]? = some r := by
    rw [List.getElem?_append_left hi, hr]
  rcases h i _ r _ hi hfirst List.getElem?_concat_length hsent with hk | ⟨_, hres', hprior⟩
  · exact hkey (by rw [← hattempt]; exact hk.symm)
  · obtain rfl := Option.some.inj hres'
    rw [hres, hattempt] at hprior
    cases hprior

end ReplayState

/-- In a run in which every claim granted after the first is decided from a claim with a key,
every state reached discloses the sends before: the calls even share one key. Once a send has
started, a claim decided from a row that is no claim, under another key, hides that send if its
call succeeds. -/
theorem uncertainty_disclosed (row : ReplayRow) (actions : List ReplayAction) :
    (Steps.Along ReplayState.step ReplayState.KeepsKey { row } actions →
      (Steps.run ReplayState.step { row } actions).Disclosed) ∧
    ∀ (s : ReplayState) (loaded : Option ℕ) (c : ClaimInput) (copy : ReplayRow) (i : ℕ)
      (r : AttemptRecord) (now : ℤ), s = Steps.run ReplayState.step { row } actions →
      s.held loaded = some copy → s.Granted c copy → copy.status ≠ .replaying →
      s.attempts[i]? = some r → r.sendStarted = true → r.attempt.idempotencyKey ≠
        (buildAttemptMeta copy.id c.uuid c.now false).idempotencyKey →
      ¬ (Steps.run ReplayState.step s [.claim loaded c, .send s.attempts.length,
        .finish s.attempts.length { now }]).Disclosed := by
  have hinit : ReplayState.SharedKey row { row } :=
    ⟨fun _ copy hcopy => by simp_all, fun hne => absurd rfl hne⟩
  refine ⟨fun h => ?_, ?_⟩
  · exact (Steps.run_invariant (fun s a hs ha => hs.step ha) hinit h).disclosed
  · intro s loaded c copy i r now _ hheld hok hst hr hsent hkey
    exact ReplayState.not_disclosed_after_claim now hheld hok hst hr hsent hkey

/-- The first send times out after some of the batch was taken; the retry delivers it all. -/
def timedOutThenRetried : List ReplayAction :=
  [.claim none { now := 0, uuid := "a" }, .send 0,
    .finish 0 { now := 1, sendError := some ⟨.httpTimeout, "ReadTimeout", none, "timed out"⟩ },
    .claim none { now := 2, uuid := "b" }, .send 1, .finish 1 { now := 3 }]

/-- The second call read the row before the first one claimed it. -/
def readBeforeClaim : List ReplayAction :=
  [.load, .claim none { now := 0, uuid := "a" }, .send 0, .claim (some 0) { now := 1, uuid := "b" },
    .send 1, .finish 1 { now := 2 }]

theorem timedOutThenRetried_not_disclosed :
    ¬ (Steps.run ReplayState.step { row := storedRow } timedOutThenRetried).Disclosed ∧
    ¬ (Steps.run ReplayState.step { row := storedRow } readBeforeClaim).Disclosed := by
  constructor <;> intro h <;>
    rcases h 0 1 _ _ (by decide) rfl rfl rfl with hkey | ⟨result, hres, hprior⟩
  · revert hkey
    decide
  · obtain rfl := Option.some.inj hres
    cases hprior
  · revert hkey
    decide
  · obtain rfl := Option.some.inj hres
    cases hprior

end Replay
