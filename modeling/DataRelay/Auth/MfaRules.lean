import DataRelay.Auth.Mfa

/-! The invariant of the tables of the second factor, and what a commit may do to them. What is
said of an account is said of its row and of its own part of the log. -/
namespace Mfa
open ReadCommitted

/-! ### The log -/

def Entry.account? : Entry → Option ℕ
  | .issued _ => none
  | .accepted _ userId _ _ => some userId
  | .enrolled userId _ _ => some userId
  | .failed userId _ => some userId
  | .reset userId => some userId

/-- The account and the clock of a factor check that succeeded or was counted. -/
def Entry.check? : Entry → Option (ℕ × ℤ)
  | .issued _ => none
  | .accepted _ userId _ now => some (userId, now)
  | .enrolled userId _ now => some (userId, now)
  | .failed userId now => some (userId, now)
  | .reset _ => none

def Entry.counter? : Entry → Option ℤ
  | .accepted _ _ (.totp counter) _ => some counter
  | .enrolled _ counter _ => some counter
  | _ => none

def Entry.digest? : Entry → Option String
  | .accepted _ _ (.recovery digest) _ => some digest
  | _ => none

/-- An account's part of the log. -/
def history (userId : ℕ) (log : List Entry) : List Entry :=
  log.filter fun entry => entry.account? = some userId

/-- The counters accepted, that of the enrolment among them. -/
def counters (entries : List Entry) : List ℤ := entries.filterMap Entry.counter?

/-- The recovery codes accepted. -/
def spentDigests (entries : List Entry) : List String := entries.filterMap Entry.digest?

def countFailure (n : ℕ) : Entry → ℕ
  | .failed _ _ => n + 1
  | .reset _ => 0
  | _ => n

/-- The failures counted since the last reset. -/
def failuresSinceReset (entries : List Entry) : ℕ := entries.foldl countFailure 0

/-- A challenge is issued or accepted. -/
inductive Use where
  | issued (tokenHash : String)
  | accepted (tokenHash : String)
  deriving DecidableEq, Repr

def Entry.use? : Entry → Option Use
  | .issued tokenHash => some (.issued tokenHash)
  | .accepted tokenHash _ _ _ => some (.accepted tokenHash)
  | _ => none

def uses (log : List Entry) : List Use := log.filterMap Entry.use?

def openAfter (tokenHash : String) (isOpen : Bool) (use : Use) : Bool :=
  if use = .issued tokenHash then true
  else if use = .accepted tokenHash then false
  else isOpen

/-- The last challenge with this token was issued and has not been accepted. -/
def unaccepted (tokenHash : String) (us : List Use) : Bool :=
  us.foldl (openAfter tokenHash) false

/-- Every acceptance is of a challenge that has not been accepted before. -/
def AcceptedOnce (us : List Use) : Prop :=
  ∀ tokenHash before after, us = before ++ .accepted tokenHash :: after →
    unaccepted tokenHash before = true

/-! ### The invariant -/

/-- The row of an account; one that has none stands as a row with its defaults. -/
def mfaOf (userId : ℕ) (rows : Rows) : UserMfa :=
  ((Dict.get? (.mfa userId) rows).bind Row.mfa?).getD {}

/-- A challenge of the user has been issued by then and has not expired. -/
def isOpenAt (userId : ℕ) (time : ℤ) (challenge : Challenge) : Bool :=
  isPending userId time challenge && challenge.createdAt ≤ time

/-- How many challenges of a kind there are. -/
def countChallenges (p : Challenge → Bool) (rows : Rows) : ℕ :=
  rows.countP fun row => (challengeOf row).any fun challenge => p challenge.2

structure Account (mfa : UserMfa) (entries : List Entry) : Prop where
  locked : factorMaxFailures ≤ mfa.failedAttempts → mfa.lockedUntil.isSome = true
  bounded : mfa.failedAttempts ≤ factorMaxFailures
  counted : failuresSinceReset entries ≤ mfa.failedAttempts
  budget : ∀ before, before <+: entries → failuresSinceReset before ≤ factorMaxFailures
  increasing : (counters entries).Pairwise (· < ·)
  reached : ∀ counter ∈ counters entries, mfa.required = true ∧ counter ≤ mfa.lastCounter
  distinct : mfa.recoveryHashes.Nodup
  once : (spentDigests entries).Nodup
  spent : ∀ digest ∈ spentDigests entries, mfa.required = true ∧ digest ∉ mfa.recoveryHashes

structure Inv (clock : ℤ) (c : Committed Key Row Entry) : Prop where
  nodup : (c.rows.map Prod.fst).Nodup
  capped : ∀ userId time, countChallenges (isOpenAt userId time) c.rows ≤ maxPendingChallenges
  dated : ∀ tokenHash challenge,
    Dict.get? (.challenge tokenHash) c.rows = some (.challenge challenge) →
    challenge.createdAt ≤ clock
  unaccepted : ∀ tokenHash challenge,
    Dict.get? (.challenge tokenHash) c.rows = some (.challenge challenge) →
    unaccepted tokenHash (uses c.log) = true
  once : AcceptedOnce (uses c.log)
  account : ∀ userId, Account (mfaOf userId c.rows) (history userId c.log)

/-- The check came after the lock of the account's row was over. -/
def Unlocked (rows : Rows) (entry : Entry) : Prop :=
  ∀ userId now lockedUntil, entry.check? = some (userId, now) →
    (mfaOf userId rows).lockedUntil = some lockedUntil → lockedUntil ≤ now

/-- Challenges are issued under the lock of the account's row. -/
structure Guarantee (locks : List Key) (c d : Committed Key Row Entry) : Prop where
  challenges : ∀ tokenHash challenge,
    Dict.get? (.challenge tokenHash) d.rows = some (.challenge challenge) →
    .mfa challenge.userId ∉ locks →
    Dict.get? (.challenge tokenHash) c.rows = some (.challenge challenge)
  unlocked : ∃ entries, d.log = c.log ++ entries ∧ ∀ entry ∈ entries, Unlocked c.rows entry

def rules (clock : ℤ) : Rules Key Row Entry := { inv := Inv clock, guarantee := Guarantee }

/-! ### Reading the log -/

theorem history_append (userId : ℕ) (log entries : List Entry) :
    history userId (log ++ entries) = history userId log ++ history userId entries :=
  List.filter_append ..

theorem history_eq_self {userId : ℕ} {entries : List Entry}
    (h : ∀ entry ∈ entries, entry.account? = some userId) : history userId entries = entries :=
  List.filter_eq_self.mpr fun entry hentry => by simp [h entry hentry]

theorem history_eq_nil {userId other : ℕ} {entries : List Entry}
    (h : ∀ entry ∈ entries, entry.account? = some userId) (hne : other ≠ userId) :
    history other entries = [] :=
  List.filter_eq_nil_iff.mpr fun entry hentry => by simpa [h entry hentry] using Ne.symm hne

theorem failuresSinceReset_append_singleton (entries : List Entry) (entry : Entry) :
    failuresSinceReset (entries ++ [entry]) = countFailure (failuresSinceReset entries) entry := by
  simp [failuresSinceReset]

theorem counters_append_singleton (entries : List Entry) (entry : Entry) :
    counters (entries ++ [entry]) = counters entries ++ entry.counter?.toList := by
  cases hcounter : entry.counter? <;> simp [counters, hcounter]

theorem spentDigests_append_singleton (entries : List Entry) (entry : Entry) :
    spentDigests (entries ++ [entry]) = spentDigests entries ++ entry.digest?.toList := by
  cases hdigest : entry.digest? <;> simp [spentDigests, hdigest]

theorem uses_append (log entries : List Entry) :
    uses (log ++ entries) = uses log ++ uses entries :=
  List.filterMap_append ..

theorem unaccepted_append_singleton (tokenHash : String) (us : List Use) (use : Use) :
    unaccepted tokenHash (us ++ [use]) = openAfter tokenHash (unaccepted tokenHash us) use := by
  simp [unaccepted]

theorem acceptedOnce_append_singleton {us : List Use} {use : Use} (h : AcceptedOnce us)
    (huse : ∀ tokenHash, use = .accepted tokenHash → unaccepted tokenHash us = true) :
    AcceptedOnce (us ++ [use]) := by
  intro tokenHash before after heq
  rcases List.eq_nil_or_concat after with rfl | ⟨front, last, rfl⟩
  · obtain ⟨rfl, hlast⟩ := List.append_inj' heq rfl
    exact huse tokenHash (List.cons.inj hlast).1
  · have hsplit : us ++ [use] = (before ++ .accepted tokenHash :: front) ++ [last] := by
      rw [heq]
      simp
    exact h tokenHash before front (List.append_inj' hsplit rfl).1

/-- Between two acceptances the token is issued again. -/
theorem AcceptedOnce.issued_between {us before middle after : List Use} {tokenHash : String}
    (h : AcceptedOnce us)
    (heq : us = before ++ .accepted tokenHash :: (middle ++ .accepted tokenHash :: after)) :
    .issued tokenHash ∈ middle := by
  by_contra hnone
  have hopen := h tokenHash (before ++ .accepted tokenHash :: middle) after (by simp [heq])
  have hclosed : ∀ ms : List Use, .issued tokenHash ∉ ms →
      unaccepted tokenHash (before ++ .accepted tokenHash :: ms) = false := by
    intro ms
    induction ms using List.reverseRecOn with
    | nil =>
      intro _
      rw [unaccepted_append_singleton]
      simp [openAfter]
    | append_singleton ms m ih =>
      intro hms
      have hm : m ≠ .issued tokenHash := fun he => hms (by simp [he])
      have hms' : .issued tokenHash ∉ ms := fun he => hms (by simp [he])
      have hassoc : before ++ Use.accepted tokenHash :: (ms ++ [m]) =
          (before ++ Use.accepted tokenHash :: ms) ++ [m] := by simp
      rw [hassoc, unaccepted_append_singleton, openAfter, if_neg hm, ih hms']
      simp
  rw [hclosed middle hnone] at hopen
  cases hopen

/-! ### Accounts -/

namespace Account

variable {mfa mfa' : UserMfa} {entries : List Entry} {userId : ℕ} {now : ℤ}

/-- The history of a user who has done nothing yet. -/
theorem nil (hlocked : factorMaxFailures ≤ mfa.failedAttempts → mfa.lockedUntil.isSome = true)
    (hbounded : mfa.failedAttempts ≤ factorMaxFailures) (hdistinct : mfa.recoveryHashes.Nodup) :
    Account mfa [] where
  locked := hlocked
  bounded := hbounded
  counted := Nat.zero_le _
  budget before hbefore := by
    rw [List.prefix_nil.mp hbefore]
    exact Nat.zero_le _
  increasing := List.Pairwise.nil
  reached := by simp [counters]
  distinct := hdistinct
  once := List.nodup_nil
  spent := by simp [spentDigests]

theorem budget_append (h : Account mfa entries) {entry : Entry}
    (hentry : failuresSinceReset (entries ++ [entry]) ≤ factorMaxFailures) :
    ∀ before, before <+: entries ++ [entry] → failuresSinceReset before ≤ factorMaxFailures := by
  intro before hbefore
  rcases List.prefix_concat_iff.mp hbefore with rfl | hbefore
  · exact hentry
  · exact h.budget before hbefore

/-- An entry that is no acceptance, with the row as the window leaves it. -/
theorem quiet (h : Account mfa entries) {entry : Entry} (hcounter : entry.counter? = none)
    (hdigest : entry.digest? = none) (hrequired : mfa'.required = mfa.required)
    (hlast : mfa'.lastCounter = mfa.lastCounter) (hhashes : mfa'.recoveryHashes = mfa.recoveryHashes)
    (hlocked : factorMaxFailures ≤ mfa'.failedAttempts → mfa'.lockedUntil.isSome = true)
    (hbounded : mfa'.failedAttempts ≤ factorMaxFailures)
    (hcounted : failuresSinceReset (entries ++ [entry]) ≤ mfa'.failedAttempts) :
    Account mfa' (entries ++ [entry]) where
  locked := hlocked
  bounded := hbounded
  counted := hcounted
  budget := h.budget_append (hcounted.trans hbounded)
  increasing := by simpa [counters_append_singleton, hcounter] using h.increasing
  reached := by simpa [counters_append_singleton, hcounter, hrequired, hlast] using h.reached
  distinct := hhashes ▸ h.distinct
  once := by simpa [spentDigests_append_singleton, hdigest] using h.once
  spent := by simpa [spentDigests_append_singleton, hdigest, hrequired, hhashes] using h.spent

/-- The columns of a pending enrolment are none of the account's. -/
theorem pending (h : Account mfa entries) (ciphertext : Option String) (expires : Option ℤ) :
    Account { mfa with pendingSecretCiphertext := ciphertext, pendingExpiresAt := expires }
      entries :=
  ⟨h.locked, h.bounded, h.counted, h.budget, h.increasing, h.reached, h.distinct, h.once, h.spent⟩

theorem clear (h : Account mfa entries) :
    Account (clearFactorFailures mfa) (entries ++ [.reset userId]) := by
  refine h.quiet rfl rfl rfl rfl rfl ?_ (Nat.zero_le _) ?_
  · intro hmax
    have hzero : factorMaxFailures ≤ 0 := hmax
    exact absurd hzero (by decide)
  · rw [failuresSinceReset_append_singleton]
    exact Nat.le_refl _

/-- A window that is open: its row is not locked, and a failure more is within the budget. -/
theorem failedAttempts_lt (h : Account mfa entries) (hopen : mfa.lockedUntil = none) :
    mfa.failedAttempts < factorMaxFailures := by
  by_contra hmax
  have hlocked := h.locked (Nat.le_of_not_lt hmax)
  rw [hopen] at hlocked
  cases hlocked

theorem fail (h : Account mfa entries) (hopen : mfa.lockedUntil = none) :
    Account (recordFactorFailure now mfa) (entries ++ [.failed userId now]) := by
  have hlt := h.failedAttempts_lt hopen
  refine h.quiet rfl rfl rfl rfl rfl ?_ hlt ?_
  · intro hmax
    have hmax' : factorMaxFailures ≤ mfa.failedAttempts + 1 := hmax
    simp [recordFactorFailure, hmax']
  · rw [failuresSinceReset_append_singleton]
    exact Nat.succ_le_succ h.counted

theorem totp (h : Account mfa entries) {tokenHash : String} {counter : ℤ}
    (hrequired : mfa.required = true) (hlt : mfa.lastCounter < counter) :
    Account { mfa with lastCounter := counter }
      (entries ++ [.accepted tokenHash userId (.totp counter) now]) where
  locked := h.locked
  bounded := h.bounded
  counted := by
    rw [failuresSinceReset_append_singleton]
    exact h.counted
  budget := h.budget_append (by
    rw [failuresSinceReset_append_singleton]
    exact h.counted.trans h.bounded)
  increasing := by
    rw [counters_append_singleton, List.pairwise_append]
    refine ⟨h.increasing, List.pairwise_singleton _ _, ?_⟩
    intro earlier hearlier last hlast
    have heq : last = counter := by simpa [Entry.counter?] using hlast
    rw [heq]
    exact (h.reached earlier hearlier).2.trans_lt hlt
  reached := by
    intro reached hreached
    rw [counters_append_singleton, List.mem_append] at hreached
    rcases hreached with hreached | hreached
    · exact ⟨hrequired, (h.reached reached hreached).2.trans hlt.le⟩
    · have heq : reached = counter := by simpa [Entry.counter?] using hreached
      exact ⟨hrequired, heq.le⟩
  distinct := h.distinct
  once := by simpa [spentDigests_append_singleton, Entry.digest?] using h.once
  spent := by simpa [spentDigests_append_singleton, Entry.digest?] using h.spent

theorem recovery (h : Account mfa entries) {tokenHash digest : String}
    (hrequired : mfa.required = true) (hmem : digest ∈ mfa.recoveryHashes) :
    Account { mfa with recoveryHashes := mfa.recoveryHashes.erase digest }
      (entries ++ [.accepted tokenHash userId (.recovery digest) now]) where
  locked := h.locked
  bounded := h.bounded
  counted := by
    rw [failuresSinceReset_append_singleton]
    exact h.counted
  budget := h.budget_append (by
    rw [failuresSinceReset_append_singleton]
    exact h.counted.trans h.bounded)
  increasing := by simpa [counters_append_singleton, Entry.counter?] using h.increasing
  reached := by simpa [counters_append_singleton, Entry.counter?] using h.reached
  distinct := h.distinct.erase digest
  once := by
    rw [spentDigests_append_singleton, List.nodup_append]
    refine ⟨h.once, List.nodup_singleton _, ?_⟩
    rintro earlier hearlier last hlast rfl
    have heq : earlier = digest := by simpa [Entry.digest?] using hlast
    rw [heq] at hearlier
    exact (h.spent digest hearlier).2 hmem
  spent := by
    intro earlier hearlier
    rw [spentDigests_append_singleton, List.mem_append] at hearlier
    rcases hearlier with hearlier | hearlier
    · exact ⟨hrequired, fun hin => (h.spent earlier hearlier).2 (List.mem_of_mem_erase hin)⟩
    · have heq : earlier = digest := by simpa [Entry.digest?] using hearlier
      rw [heq]
      exact ⟨hrequired, h.distinct.not_mem_erase⟩

theorem consume (h : Account mfa entries) {tokenHash : String} {factor : Factor}
    (hrequired : mfa.required = true)
    (htotp : ∀ counter, factor = .totp counter → mfa.lastCounter < counter)
    (hrecovery : ∀ digest, factor = .recovery digest → digest ∈ mfa.recoveryHashes) :
    Account (consumeFactor mfa factor) (entries ++ [.accepted tokenHash userId factor now]) := by
  cases factor with
  | totp counter => exact h.totp hrequired (htotp counter rfl)
  | recovery digest => exact h.recovery hrequired (hrecovery digest rfl)

/-- An account is enrolled before any of its factors is accepted. -/
theorem enrol (h : Account mfa entries) {counter : ℤ} {digests : List String}
    {ciphertext : Option String} (hrequired : mfa.required = false) (hdigests : digests.Nodup) :
    Account { mfa with
        secretCiphertext := ciphertext, pendingSecretCiphertext := none, pendingExpiresAt := none
        required := true, lastCounter := counter, recoveryHashes := digests }
      (entries ++ [.enrolled userId counter now]) := by
  have hcounters : counters entries = [] := by
    refine List.eq_nil_iff_forall_not_mem.mpr fun earlier hearlier => ?_
    rw [(h.reached earlier hearlier).1] at hrequired
    cases hrequired
  have hspent : spentDigests entries = [] := by
    refine List.eq_nil_iff_forall_not_mem.mpr fun earlier hearlier => ?_
    rw [(h.spent earlier hearlier).1] at hrequired
    cases hrequired
  have hnow : counters (entries ++ [.enrolled userId counter now]) = [counter] := by
    simp [counters_append_singleton, hcounters, Entry.counter?]
  have hnone : spentDigests (entries ++ [.enrolled userId counter now]) = [] := by
    simp [spentDigests_append_singleton, hspent, Entry.digest?]
  have hcount : failuresSinceReset (entries ++ [.enrolled userId counter now]) =
      failuresSinceReset entries := failuresSinceReset_append_singleton _ _
  constructor
  · exact h.locked
  · exact h.bounded
  · exact hcount ▸ h.counted
  · exact h.budget_append (hcount ▸ h.counted.trans h.bounded)
  · exact hnow ▸ List.pairwise_singleton _ _
  · rw [hnow]
    simp
  · exact hdigests
  · exact hnone ▸ List.nodup_nil
  · rw [hnone]
    simp

/-- The check of the window, where it passes, leaves a window that is open. -/
theorem window (h : Account mfa entries) (userId : ℕ) {checked : UserMfa}
    (hcheck : checkFactorWindow now mfa = .ok checked) :
    Account checked (entries ++ windowEntries userId now mfa) ∧ checked.lockedUntil = none ∧
      (∀ lockedUntil, mfa.lockedUntil = some lockedUntil → lockedUntil ≤ now) ∧
      checked.required = mfa.required := by
  unfold checkFactorWindow at hcheck
  unfold windowEntries
  cases hlock : mfa.lockedUntil with
  | some lockedUntil =>
    rw [hlock] at hcheck
    have hended : windowEnded now mfa = true := by simp [windowEnded, hlock]
    simp only at hcheck
    split_ifs at hcheck with hlt
    cases hcheck
    rw [if_pos hended]
    refine ⟨h.clear, rfl, ?_, rfl⟩
    intro time htime
    cases htime
    exact not_lt.mp hlt
  | none =>
    rw [hlock] at hcheck
    simp only [Except.ok.injEq] at hcheck
    subst hcheck
    split_ifs with hended
    · exact ⟨h.clear, rfl, by simp, rfl⟩
    · rw [List.append_nil]
      exact ⟨h, hlock, by simp, rfl⟩

end Account

end Mfa
