import DataRelay.Auth.MfaRules

/-! The requests keep the rules of the second factor, so its protocol holds in every interleaving
of any number of sign-ins and enrolments, with crashes at any statement. -/
namespace Mfa
open ReadCommitted

variable {T : Type} {s : Services T} {clock now : ℤ} {userId : ℕ} {mfa mfa' : UserMfa}
  {rows rows' : Rows} {locks : List Key} {ws : List (Write Key Row)}
  {c d : Committed Key Row Entry} {entries : List Entry} {next : Code T}

/-! ### Rows -/

theorem challengeOf_eq_some {key : Key} {row : Row} {found : String × Challenge}
    (h : challengeOf (key, row) = some found) :
    key = .challenge found.1 ∧ row = .challenge found.2 := by
  cases key <;> cases row <;> simp [challengeOf] at h
  exact ⟨by rw [← h], by rw [← h]⟩

/-- Every challenge of one table is in the other. -/
def Fewer (p : Challenge → Bool) (rows rows' : Rows) : Prop :=
  ∀ tokenHash challenge, Dict.get? (.challenge tokenHash) rows = some (.challenge challenge) →
    p challenge = true → Dict.get? (.challenge tokenHash) rows' = some (.challenge challenge)

theorem Fewer.count_le {p : Challenge → Bool} (h : Fewer p rows rows')
    (hnodup : (rows.map Prod.fst).Nodup) : countChallenges p rows ≤ countChallenges p rows' := by
  refine countP_le_of_get? hnodup fun key row hget hp => ?_
  obtain ⟨found, hfound, hp⟩ := (Option.any_eq_true _ _).mp hp
  obtain ⟨rfl, rfl⟩ := challengeOf_eq_some hfound
  exact h _ _ hget hp

theorem countChallenges_imp {p q : Challenge → Bool}
    (h : ∀ challenge, p challenge = true → q challenge = true) (rows : Rows) :
    countChallenges p rows ≤ countChallenges q rows := by
  refine List.countP_mono_left fun row _ hp => ?_
  obtain ⟨found, hfound, hp⟩ := (Option.any_eq_true _ _).mp hp
  exact (Option.any_eq_true _ _).mpr ⟨found, hfound, h _ hp⟩

theorem length_pendingChallenges (userId : ℕ) (now : ℤ) (rows : Rows) :
    (pendingChallenges userId now rows).length = countChallenges (isPending userId now) rows := by
  unfold pendingChallenges challengesIn countChallenges
  rw [← List.countP_eq_length_filter, List.countP_filterMap]
  congr 1
  funext row
  cases challengeOf row <;> rfl

/-- One account's row may have changed, and no challenge is there that was not. -/
structure Changed (userId : ℕ) (mfa : UserMfa) (rows rows' : Rows) : Prop where
  nodup : (rows'.map Prod.fst).Nodup
  challenges : Fewer (fun _ => true) rows' rows
  mfa : mfaOf userId rows' = mfa
  others : ∀ other, other ≠ userId → mfaOf other rows' = mfaOf other rows

theorem Changed.refl (userId : ℕ) (h : (rows.map Prod.fst).Nodup) :
    Changed userId (mfaOf userId rows) rows rows :=
  ⟨h, fun _ _ hget _ => hget, rfl, fun _ _ => rfl⟩

theorem mfaOf_put_of_ne {key : Key} (h : key ≠ .mfa userId) (row : Option Row) (rows : Rows) :
    mfaOf userId (put key row rows) = mfaOf userId rows := by
  unfold mfaOf
  rw [get?_put, if_neg h]

theorem Changed.delete (h : Changed userId mfa rows rows') (tokenHash : String) :
    Changed userId mfa rows (put (.challenge tokenHash) none rows') where
  nodup := nodup_put h.nodup _ _
  challenges other challenge hget _ := by
    rw [get?_put] at hget
    split_ifs at hget
    exact h.challenges other challenge hget rfl
  mfa := (mfaOf_put_of_ne (by simp) _ _).trans h.mfa
  others other hne := (mfaOf_put_of_ne (by simp) _ _).trans (h.others other hne)

theorem Changed.store (h : Changed userId mfa rows rows') (mfa' : UserMfa) :
    Changed userId mfa' rows (put (.mfa userId) (some (.mfa mfa')) rows') where
  nodup := nodup_put h.nodup _ _
  challenges tokenHash challenge hget _ := by
    rw [get?_put, if_neg (by simp)] at hget
    exact h.challenges tokenHash challenge hget rfl
  mfa := by
    unfold mfaOf
    rw [get?_put, if_pos rfl]
    rfl
  others other hne := by
    rw [mfaOf_put_of_ne (by simpa using Ne.symm hne)]
    exact h.others other hne

theorem Changed.user (h : Changed userId mfa rows rows') (id : ℕ) (row : Option Row) :
    Changed userId mfa rows (put (.user id) row rows') where
  nodup := nodup_put h.nodup _ _
  challenges tokenHash challenge hget _ := by
    rw [get?_put, if_neg (by simp)] at hget
    exact h.challenges tokenHash challenge hget rfl
  mfa := (mfaOf_put_of_ne (by simp) _ _).trans h.mfa
  others other hne := (mfaOf_put_of_ne (by simp) _ _).trans (h.others other hne)

/-- The entries of a commit accept no challenge, or one that is deleted with it. -/
def Consumes (entries : List Entry) (rows rows' : Rows) : Prop :=
  uses entries = [] ∨ ∃ tokenHash challenge, uses entries = [.accepted tokenHash] ∧
    Dict.get? (.challenge tokenHash) rows = some (.challenge challenge) ∧
    Dict.get? (.challenge tokenHash) rows' = none

theorem Inv.change (h : Inv clock c) (hrows : Changed userId mfa c.rows rows')
    (hown : ∀ entry ∈ entries, entry.account? = some userId)
    (haccount : Account mfa (history userId c.log ++ entries))
    (huses : Consumes entries c.rows rows') : Inv clock ⟨rows', c.log ++ entries⟩ where
  nodup := hrows.nodup
  capped id time :=
    (Fewer.count_le (fun _ _ hget _ => hrows.challenges _ _ hget rfl) hrows.nodup).trans
      (h.capped id time)
  dated tokenHash challenge hget := h.dated tokenHash challenge (hrows.challenges _ _ hget rfl)
  unaccepted tokenHash challenge hget := by
    have hopen := h.unaccepted tokenHash challenge (hrows.challenges _ _ hget rfl)
    show Mfa.unaccepted tokenHash (uses (c.log ++ entries)) = true
    rw [uses_append]
    rcases huses with hnone | ⟨accepted, -, haccepted, -, hdeleted⟩
    · rw [hnone, List.append_nil]
      exact hopen
    · have hne : accepted ≠ tokenHash := by
        rintro rfl
        rw [hdeleted] at hget
        cases hget
      rw [haccepted, unaccepted_append_singleton, openAfter, if_neg (by simp),
        if_neg (by simpa using hne)]
      exact hopen
  once := by
    show AcceptedOnce (uses (c.log ++ entries))
    rw [uses_append]
    rcases huses with hnone | ⟨accepted, challenge, haccepted, hthere, -⟩
    · rw [hnone, List.append_nil]
      exact h.once
    · rw [haccepted]
      refine acceptedOnce_append_singleton h.once fun tokenHash heq => ?_
      cases heq
      exact h.unaccepted _ challenge hthere
  account id := by
    show Account (mfaOf id rows') (history id (c.log ++ entries))
    rw [history_append]
    by_cases hid : id = userId
    · rw [hid, hrows.mfa, history_eq_self hown]
      exact haccount
    · rw [hrows.others id hid, history_eq_nil hown hid, List.append_nil]
      exact h.account id

/-! ### Commits of an account -/

/-- The writes change nothing of the account, whatever the tables. -/
def Keeps (userId : ℕ) (ws : List (Write Key Row)) : Prop :=
  ∀ rows : Rows, (rows.map Prod.fst).Nodup →
    Changed userId (mfaOf userId rows) rows (applyWrites ws rows)

/-- The writes leave this row for the account, whatever the tables. -/
def Leaves (userId : ℕ) (mfa : UserMfa) (ws : List (Write Key Row)) : Prop :=
  ∀ rows : Rows, (rows.map Prod.fst).Nodup → Changed userId mfa rows (applyWrites ws rows)

theorem keeps_nil (userId : ℕ) : Keeps userId [] := fun _ h => .refl userId h

theorem keeps_delete (userId : ℕ) (tokenHash : String) :
    Keeps userId [(.challenge tokenHash, fun _ => none)] :=
  fun _ h => (Changed.refl userId h).delete tokenHash

theorem Keeps.store (h : Keeps userId ws) (mfa : UserMfa) :
    Leaves userId mfa (ws ++ [(.mfa userId, fun _ => some (.mfa mfa))]) := by
  intro rows hnodup
  rw [applyWrites_append]
  exact (h rows hnodup).store mfa

theorem Leaves.user (h : Leaves userId mfa ws) (id : ℕ) (change : Option Row → Option Row) :
    Leaves userId mfa (ws ++ [(.user id, change)]) := by
  intro rows hnodup
  rw [applyWrites_append]
  exact (h rows hnodup).user id _

/-- What follows the last commit of a request. -/
def Quiet (next : Code T) : Prop := ∀ clock d, (rules clock).Safe next [] [] d

theorem quiet_answer (reply : Reply) : Quiet (answer reply : Code T) := fun _ _ _ => trivial

theorem quiet_memory {update : Process T → Process T} (h : Quiet next) :
    Quiet (.memory update fun _ => next) := fun clock d _ => h clock d

theorem safe_raise (reply : Reply) :
    (rules clock).Safe (raise reply : Code T) locks ws c := fun _ _ _ => trivial

theorem mfaOf_of_holds (h : Holds (.mfa userId) (.mfa mfa) locks c) : mfaOf userId c.rows = mfa := by
  unfold mfaOf
  rw [h.row]
  rfl

theorem account_of_check {entry : Entry} {id : ℕ} {time : ℤ} (h : entry.check? = some (id, time)) :
    entry.account? = some id := by
  cases entry <;> simp_all [Entry.check?, Entry.account?]

/-- A commit with the account's row locked, that leaves `mfa'` for it. -/
theorem safe_commit (hc : Inv clock c) (hheld : Holds (.mfa userId) (.mfa mfa) locks c)
    (hleaves : Leaves userId mfa' ws) (hown : ∀ entry ∈ entries, entry.account? = some userId)
    (haccount : ∀ before, Account mfa before → Account mfa' (before ++ entries))
    (hunlocked : ∀ entry ∈ entries, ∀ id time lockedUntil, entry.check? = some (id, time) →
      mfa.lockedUntil = some lockedUntil → lockedUntil ≤ time)
    (huses : ∀ d, (rules clock).Others locks c d →
      Consumes entries d.rows (applyWrites ws d.rows))
    (hnext : Quiet next) : (rules clock).Safe (.commit entries next) locks ws c := by
  intro d hd
  have hinv : Inv clock d := hd.inv hc
  have hmfa := mfaOf_of_holds (hheld.others hd)
  have hchanged := hleaves d.rows hinv.nodup
  have hbefore : Account mfa (history userId d.log) := hmfa ▸ hinv.account userId
  refine ⟨⟨?_, entries, rfl, ?_⟩, ?_, hnext clock _⟩
  · intro tokenHash challenge hget _
    exact hchanged.challenges tokenHash challenge hget rfl
  · intro entry hentry id time lockedUntil hcheck hlocked
    have hid : id = userId := by
      have hsame := (account_of_check hcheck).symm.trans (hown entry hentry)
      exact Option.some.inj hsame
    rw [hid, hmfa] at hlocked
    exact hunlocked entry hentry id time lockedUntil hcheck hlocked
  · exact hinv.change hchanged hown (haccount _ hbefore) (huses d hd)

/-- A commit that records nothing and changes no account. -/
theorem safe_commit_nil (hc : Inv clock c) (hkeeps : Keeps userId ws) (hnext : Quiet next) :
    (rules clock).Safe (.commit [] next) locks ws c := by
  intro d hd
  have hinv : Inv clock d := hd.inv hc
  have hchanged := hkeeps d.rows hinv.nodup
  refine ⟨⟨?_, [], rfl, by simp⟩, ?_, hnext clock _⟩
  · intro tokenHash challenge hget _
    exact hchanged.challenges tokenHash challenge hget rfl
  · refine hinv.change hchanged (by simp) ?_ (.inl rfl)
    rw [List.append_nil]
    exact hinv.account userId

theorem account_of_windowEntries {entry : Entry} (h : entry ∈ windowEntries userId now mfa) :
    entry.account? = some userId := by
  unfold windowEntries at h
  split_ifs at h
  · rw [List.mem_singleton.mp h]
    rfl
  · cases h

theorem check_of_windowEntries {entry : Entry} (h : entry ∈ windowEntries userId now mfa) :
    entry.check? = none := by
  unfold windowEntries at h
  split_ifs at h
  · rw [List.mem_singleton.mp h]
    rfl
  · cases h

theorem uses_windowEntries (userId : ℕ) (now : ℤ) (mfa : UserMfa) :
    uses (windowEntries userId now mfa) = [] := by
  unfold windowEntries
  split_ifs <;> rfl

/-- The commits after a window that was passed: what it records, then `entries`. -/
theorem safe_commit_window {checked : UserMfa} (hcheck : checkFactorWindow now mfa = .ok checked)
    (hc : Inv clock c) (hheld : Holds (.mfa userId) (.mfa mfa) locks c)
    (hleaves : Leaves userId mfa' ws) (hown : ∀ entry ∈ entries, entry.account? = some userId)
    (htime : ∀ entry ∈ entries, ∀ id time, entry.check? = some (id, time) → time = now)
    (haccount : ∀ before, Account checked before → checked.lockedUntil = none →
      checked.required = mfa.required → Account mfa' (before ++ entries))
    (huses : ∀ d, (rules clock).Others locks c d →
      Consumes entries d.rows (applyWrites ws d.rows))
    (hnext : Quiet next) :
    (rules clock).Safe (.commit (windowEntries userId now mfa ++ entries) next) locks ws c := by
  have hpassed : ∀ lockedUntil, mfa.lockedUntil = some lockedUntil → lockedUntil ≤ now := by
    have haccounts : Account mfa (history userId c.log) :=
      mfaOf_of_holds hheld ▸ hc.account userId
    exact (haccounts.window userId hcheck).2.2.1
  refine safe_commit hc hheld hleaves ?_ ?_ ?_ ?_ hnext
  · intro entry hentry
    rcases List.mem_append.mp hentry with hentry | hentry
    · exact account_of_windowEntries hentry
    · exact hown entry hentry
  · intro before hbefore
    obtain ⟨hwindow, hopen, -, hrequired⟩ := hbefore.window userId hcheck
    rw [← List.append_assoc]
    exact haccount _ hwindow hopen hrequired
  · intro entry hentry id time lockedUntil hcheck' hlocked
    rcases List.mem_append.mp hentry with hentry | hentry
    · rw [check_of_windowEntries hentry] at hcheck'
      cases hcheck'
    · rw [htime entry hentry id time hcheck']
      exact hpassed lockedUntil hlocked
  · intro d hd
    unfold Consumes
    rw [uses_append, uses_windowEntries, List.nil_append]
    exact huses d hd

/-- A window that was passed, and nothing more than columns the account does not depend on. -/
theorem safe_storeWindow {checked : UserMfa} (hcheck : checkFactorWindow now mfa = .ok checked)
    (hc : Inv clock c) (hheld : Holds (.mfa userId) (.mfa mfa) locks c) (hkeeps : Keeps userId ws)
    (haccount : ∀ before, Account checked before → Account mfa' before) (hnext : Quiet next) :
    (rules clock).Safe (storeMfa userId mfa' (.commit (windowEntries userId now mfa) next))
      locks ws c := by
  intro d hd
  have hheld' := (hheld.others hd).wrote (.mfa userId)
  rw [← List.append_nil (windowEntries userId now mfa)]
  refine safe_commit_window hcheck (hd.inv hc) hheld' (hkeeps.store mfa') (by simp) (by simp) ?_
    (fun _ _ => .inl rfl) hnext
  intro before hbefore _ _
  rw [List.append_nil]
  exact haccount before hbefore

/-- A failure is counted. -/
theorem safe_storeFailure {checked : UserMfa} (hcheck : checkFactorWindow now mfa = .ok checked)
    (hc : Inv clock c) (hheld : Holds (.mfa userId) (.mfa mfa) locks c) (hkeeps : Keeps userId ws)
    (hnext : Quiet next) :
    (rules clock).Safe
      (storeMfa userId (recordFactorFailure now checked)
        (.commit (windowEntries userId now mfa ++ [.failed userId now]) next))
      locks ws c := by
  intro d hd
  have hheld' := (hheld.others hd).wrote (.mfa userId)
  refine safe_commit_window hcheck (hd.inv hc) hheld' (hkeeps.store _) (by simp [Entry.account?])
    (by simp [Entry.check?]) ?_ (fun _ _ => .inl rfl) hnext
  intro before hbefore hopen _
  exact hbefore.fail hopen

/-! ### The factor stage -/

/-- `verify_totp` returns nothing or a later counter. -/
def Services.TotpAdvances (s : Services T) : Prop :=
  ∀ secret code now last counter,
    s.verifyTotp secret code now (some last) = some counter → last < counter

theorem matchFactor_totp (hs : s.TotpAdvances) {code recoveryCode : String} {counter : ℤ}
    (h : matchFactor s userId mfa code recoveryCode now = .ok (some (.totp counter))) :
    mfa.lastCounter < counter := by
  unfold matchFactor at h
  split_ifs at h
  · cases hsecret : unsealSecret s userId (mfa.secretCiphertext.getD "") with
    | error reply => simp [hsecret] at h
    | ok secret =>
      simp only [hsecret, Except.ok.injEq, Option.map_eq_some_iff] at h
      obtain ⟨found, hfound, heq⟩ := h
      cases heq
      exact hs _ _ _ _ _ hfound
  · cases hdigest : s.recoveryCodeDigest recoveryCode with
    | none => simp [hdigest] at h
    | some target =>
      simp only [hdigest, Except.ok.injEq] at h
      split_ifs at h
      cases h
  · cases h

theorem matchFactor_recovery {code recoveryCode digest : String}
    (h : matchFactor s userId mfa code recoveryCode now = .ok (some (.recovery digest))) :
    digest ∈ mfa.recoveryHashes := by
  unfold matchFactor at h
  split_ifs at h
  · cases hsecret : unsealSecret s userId (mfa.secretCiphertext.getD "") with
    | error reply => simp [hsecret] at h
    | ok secret =>
      simp only [hsecret, Except.ok.injEq, Option.map_eq_some_iff] at h
      obtain ⟨found, -, heq⟩ := h
      cases heq
  · cases hdigest : s.recoveryCodeDigest recoveryCode with
    | none => simp [hdigest] at h
    | some target =>
      simp only [hdigest, Except.ok.injEq] at h
      split_ifs at h with hmem
      cases h
      exact hmem
  · cases h

/-- A refusal of the throttle keeps what the window check did. -/
theorem safe_verifyFactor (hs : s.TotpAdvances) {tokenHash code recoveryCode : String}
    {challenge : Challenge} {user : User} {peer : Peer} {tick : ℤ} (hc : Inv clock c)
    (hchallenge : Holds (.challenge tokenHash) (.challenge challenge) locks c)
    (hheld : Holds (.mfa userId) (.mfa mfa) locks c) (hrequired : mfa.required = true) :
    (rules clock).Safe (verifyFactor s tokenHash userId user mfa code recoveryCode peer now tick)
      locks [(.challenge tokenHash, fun _ => none)] c := by
  have hkeeps := keeps_delete userId tokenHash
  unfold verifyFactor
  simp only
  cases hcheck : checkFactorWindow now mfa with
  | error wait => exact safe_commit_nil hc hkeeps (quiet_answer _)
  | ok checked =>
    intro p
    beta_reduce
    split_ifs with hallowed
    · exact safe_storeWindow hcheck hc hheld hkeeps (fun _ hbefore => hbefore) (quiet_answer _)
    · cases hmatch : matchFactor s userId checked code recoveryCode now with
      | error reply => exact safe_raise reply
      | ok matched =>
        cases matched with
        | none => exact safe_storeFailure hcheck hc hheld hkeeps (quiet_memory (quiet_answer _))
        | some factor =>
          intro d hd e he
          have hheld' := (((hheld.others hd).wrote (.mfa userId)).others he).wrote (.user userId)
          have hchallenge' :=
            (((hchallenge.others hd).wrote (.mfa userId)).others he).wrote (.user userId)
          refine safe_commit_window hcheck (he.inv (hd.inv hc)) hheld'
            ((hkeeps.store _).user userId _) (by simp [Entry.account?]) ?_ ?_ ?_
            (quiet_memory (quiet_answer _))
          · simp [Entry.check?]
          · intro before hbefore _ hkept
            have hconsumed : Account (consumeFactor (clearFactorFailures checked) factor)
                ((before ++ [.reset userId]) ++ [.accepted tokenHash userId factor now]) := by
              refine hbefore.clear.consume (hkept.trans hrequired) ?_ ?_
              · rintro counter rfl
                exact matchFactor_totp hs hmatch
              · rintro digest rfl
                exact matchFactor_recovery hmatch
            rw [List.append_assoc] at hconsumed
            exact hconsumed
          · intro f hf
            refine .inr ⟨tokenHash, challenge, rfl, (hchallenge'.others hf).row, ?_⟩
            simp [applyWrites]

theorem mfa?_eq_some {row : Row} : row.mfa? = some mfa ↔ row = .mfa mfa := by
  cases row <;> simp [Row.mfa?]

theorem validAccount_eq_some {peer : Peer} {challenge : Challenge} {userRow mfaRow : Option Row}
    {user : User} (h : validAccount s now peer challenge (userRow.bind Row.user?)
      (mfaRow.bind Row.mfa?) = some (user, mfa)) :
    mfaRow = some (.mfa mfa) ∧ mfa.required = true := by
  unfold validAccount at h
  split at h
  next user' mfa' huser hmfa =>
    split_ifs at h with hvalid
    cases h
    obtain ⟨row, hrow, hcolumns⟩ := Option.bind_eq_some_iff.mp hmfa
    rw [hrow, mfa?_eq_some.mp hcolumns]
    exact ⟨rfl, hvalid.2.1⟩
  next => cases h

theorem safe_verifyPasswordChallenge (hs : s.TotpAdvances) (token code recoveryCode : String)
    (peer : Peer) (tick : ℤ) (hc : Inv clock c) :
    (rules clock).Safe (verifyPasswordChallenge s token code recoveryCode peer now tick) [] [] c := by
  intro d hd
  cases hrow : Dict.get? (Key.challenge (s.fingerprint token)) (applyWrites [] d.rows) with
  | none => exact safe_raise _
  | some row =>
    cases row with
    | user user => exact safe_raise _
    | mfa mfa => exact safe_raise _
    | challenge challenge =>
      intro e he f hf g hg
      have hinv : Inv clock g := hg.inv (hf.inv (he.inv (hd.inv hc)))
      have hchallenge := ((((((holds_lock hrow []).others he).locked _ _).others hf).locked _ _).others
        hg).wrote (.challenge (s.fingerprint token))
      cases hvalid : validAccount s now peer challenge
          ((Dict.get? (.user challenge.userId) (applyWrites [] e.rows)).bind Row.user?)
          ((Dict.get? (.mfa challenge.userId) (applyWrites [] f.rows)).bind Row.mfa?) with
      | none => exact safe_commit_nil hinv (keeps_delete challenge.userId _) (quiet_answer _)
      | some account =>
        obtain ⟨user, mfa⟩ := account
        obtain ⟨hmfa, hrequired⟩ := validAccount_eq_some hvalid
        rw [hmfa] at hg hchallenge ⊢
        have hheld := ((holds_lock hmfa _).others hg).wrote (.challenge (s.fingerprint token))
        exact safe_verifyFactor hs hinv hchallenge hheld hrequired

/-! ### Enrolment -/

/-- The new row is an account that stood with its defaults. -/
theorem safe_startEnrollment (secret ciphertext : String) (hc : Inv clock c) :
    (rules clock).Safe (startEnrollment s userId secret ciphertext now) [] [] c := by
  unfold startEnrollment
  split_ifs
  · exact safe_raise _
  intro d hd
  have hinv : Inv clock d := hd.inv hc
  cases hrow : Dict.get? (Key.mfa userId) (applyWrites [] d.rows) with
  | none =>
    intro e he hnone f hf
    have hinv' : Inv clock f := hf.inv (he.inv hinv)
    have hget : Dict.get? (.mfa userId) f.rows = none :=
      (hf.get? List.mem_cons_self).trans hnone
    have hmfa : mfaOf userId f.rows = {} := by
      unfold mfaOf
      rw [hget]
      rfl
    have hchanged := (keeps_nil userId).store
      { pendingSecretCiphertext := some ciphertext
        pendingExpiresAt := some (now + seconds enrollmentSeconds) } f.rows hinv'.nodup
    refine ⟨⟨?_, [], rfl, by simp⟩, ?_, quiet_answer _ clock _⟩
    · intro tokenHash challenge hthere _
      exact hchanged.challenges tokenHash challenge hthere rfl
    · refine hinv'.change hchanged (by simp) ?_ (.inl rfl)
      rw [List.append_nil]
      exact (hmfa ▸ hinv'.account userId).pending _ _
  | some row =>
    dsimp only
    cases hmfa : row.mfa? with
    | none => trivial
    | some mfa =>
      rw [mfa?_eq_some.mp hmfa] at hrow ⊢
      dsimp only
      by_cases henabled : mfa.required = true ∨ present mfa.secretCiphertext = true
      · rw [if_pos henabled]
        exact safe_raise _
      rw [if_neg henabled]
      cases hcheck : checkFactorWindow now mfa with
      | error wait => exact safe_raise _
      | ok checked =>
        exact safe_storeWindow hcheck hinv (holds_lock hrow []) (keeps_nil userId)
          (fun _ hbefore => hbefore.pending _ _) (quiet_answer _)

theorem safe_confirmRow {user : User} {code : String} {drawn : List String}
    (hdrawn : ∀ digests, drawn.mapM s.recoveryCodeDigest = some digests → digests.Nodup)
    (hc : Inv clock c) (hheld : Holds (.mfa userId) (.mfa mfa) locks c) :
    (rules clock).Safe (confirmRow s userId user mfa code drawn now) locks [] c := by
  unfold confirmRow
  cases hpending : mfa.pendingExpiresAt with
  | none => exact safe_raise _
  | some pendingExpiresAt =>
    dsimp only
    by_cases hmissing : mfa.required = true ∨ present mfa.pendingSecretCiphertext = false
    · rw [if_pos hmissing]
      exact safe_raise _
    rw [if_neg hmissing]
    cases hcheck : checkFactorWindow now mfa with
    | error wait => exact safe_raise _
    | ok checked =>
      dsimp only
      by_cases hexpired : pendingExpiresAt ≤ now
      · rw [if_pos hexpired]
        exact safe_storeWindow hcheck hc hheld (keeps_nil userId)
          (fun _ hbefore => hbefore.pending _ _) (quiet_answer _)
      rw [if_neg hexpired]
      cases hsecret : unsealSecret s userId (mfa.pendingSecretCiphertext.getD "") with
      | error reply => exact safe_raise _
      | ok secret =>
        dsimp only
        cases hcounter : s.verifyTotp secret code now none with
        | none => exact safe_storeFailure hcheck hc hheld (keeps_nil userId) (quiet_answer _)
        | some counter =>
          dsimp only
          cases hdigests : drawn.mapM s.recoveryCodeDigest with
          | none => exact fun _ _ => trivial
          | some digests =>
            intro d hd e he
            have hheld' := (((hheld.others hd).wrote (.mfa userId)).others he).wrote (.user userId)
            refine safe_commit_window hcheck (he.inv (hd.inv hc)) hheld'
              (((keeps_nil userId).store _).user userId _) (by simp [Entry.account?])
              (by simp [Entry.check?]) ?_ (fun _ _ => .inl rfl) (quiet_answer _)
            intro before hbefore _ hkept
            have hrequired : checked.required = false := by
              rw [hkept]
              exact Bool.eq_false_iff.mpr fun h => hmissing (.inl h)
            have henrolled : Account (enrolledRow mfa checked counter digests)
                ((before ++ [.reset userId]) ++ [.enrolled userId counter now]) :=
              hbefore.clear.enrol hrequired (hdrawn digests hdigests)
            rw [List.append_assoc] at henrolled
            exact henrolled

theorem safe_confirmEnrollment {user : User} {code : String} {drawn : List String}
    (hdrawn : ∀ digests, drawn.mapM s.recoveryCodeDigest = some digests → digests.Nodup)
    (hc : Inv clock c) :
    (rules clock).Safe (confirmEnrollment s userId user code drawn now) locks [] c := by
  intro d hd
  cases hrow : Dict.get? (Key.mfa userId) (applyWrites [] d.rows) with
  | none => exact safe_raise _
  | some row =>
    cases row with
    | user user => exact safe_raise _
    | challenge challenge => exact safe_raise _
    | mfa mfa => exact safe_confirmRow hdrawn (hd.inv hc) (holds_lock hrow locks)

theorem safe_mfaEnrollConfirm {ctx : AuthContext} {code : String} {drawn : List String}
    (hdrawn : ∀ digests, drawn.mapM s.recoveryCodeDigest = some digests → digests.Nodup)
    (hc : Inv clock c) :
    (rules clock).Safe (mfaEnrollConfirm s ctx code drawn now) [] [] c := by
  intro d hd
  dsimp only
  cases currentMfaActor ctx (Dict.get? (.user ctx.userId) (applyWrites [] d.rows)) with
  | error reply => exact safe_raise _
  | ok user => exact safe_confirmEnrollment hdrawn (hd.inv hc)

/-! ### The password stage -/

/-- The writes delete challenges. -/
def Deletes (ws : List (Write Key Row)) : Prop :=
  ∀ w ∈ ws, ∃ tokenHash, w = (.challenge tokenHash, fun _ => none)

theorem Deletes.keeps (h : Deletes ws) (userId : ℕ) : Keeps userId ws := by
  induction ws using List.reverseRecOn with
  | nil => exact keeps_nil userId
  | append_singleton ws w ih =>
    obtain ⟨tokenHash, rfl⟩ := h w (by simp)
    intro rows hnodup
    rw [applyWrites_append]
    exact (ih (fun v hv => h v (List.mem_append_left _ hv)) rows hnodup).delete tokenHash

theorem Deletes.fewer (h : Deletes ws) {p : Challenge → Bool} (hnodup : (rows.map Prod.fst).Nodup)
    (hfewer : Fewer p rows rows') : Fewer p (applyWrites ws rows) (applyWrites ws rows') := by
  intro tokenHash challenge hget hp
  have hbase := ((h.keeps 0) rows hnodup).challenges tokenHash challenge hget rfl
  rw [← hget]
  exact get?_applyWrites_congr ws ((hfewer tokenHash challenge hbase hp).trans hbase.symm)

/-- Under the lock of an account's row its challenges become only fewer. -/
theorem fewer_of_others (hlock : .mfa userId ∈ locks) (hd : (rules clock).Others locks c d) :
    Fewer (isPending userId now) d.rows c.rows := by
  refine Rules.Others.keeps (P := fun e => Fewer (isPending userId now) e.rows c.rows) ?_ hd
    fun _ _ hget _ => hget
  intro held before after hdisjoint _ hguarantee hbefore tokenHash challenge hget hp
  have hid : challenge.userId = userId := by
    simp only [isPending, Bool.and_eq_true, decide_eq_true_eq] at hp
    exact hp.1
  refine hbefore tokenHash challenge (hguarantee.challenges tokenHash challenge hget ?_) hp
  rw [hid]
  exact fun hheld => hdisjoint hheld hlock

theorem Fewer.trans {p : Challenge → Bool} {rows'' : Rows} (h : Fewer p rows rows')
    (h' : Fewer p rows' rows'') : Fewer p rows rows'' :=
  fun tokenHash challenge hget hp => h' tokenHash challenge (h tokenHash challenge hget hp) hp

/-- A new challenge keeps the cap where it is open, since all others open then are pending. -/
theorem countChallenges_issue {tokenHash : String} {challenge : Challenge} {id : ℕ} {time : ℤ}
    (hfree : countChallenges (isPending challenge.userId challenge.createdAt) rows <
      maxPendingChallenges)
    (hcapped : countChallenges (isOpenAt id time) rows ≤ maxPendingChallenges) :
    countChallenges (isOpenAt id time)
      (put (.challenge tokenHash) (some (.challenge challenge)) rows) ≤ maxPendingChallenges := by
  have hput := countP_put_some_le
    (fun row => (challengeOf row).any fun challenge => isOpenAt id time challenge.2)
    (.challenge tokenHash) (.challenge challenge) rows
  by_cases hopen : isOpenAt id time challenge = true
  · have hall : countChallenges (isOpenAt id time) rows ≤
        countChallenges (isPending challenge.userId challenge.createdAt) rows := by
      refine countChallenges_imp ?_ rows
      intro other hother
      simp only [isOpenAt, isPending, Bool.and_eq_true, decide_eq_true_eq] at hopen hother ⊢
      omega
    simp only [challengeOf, Option.any_some, hopen, if_true] at hput
    exact hput.trans (Nat.succ_le_of_lt (hall.trans_lt hfree))
  · simp only [challengeOf, Option.any_some, hopen] at hput
    exact hput.trans hcapped

theorem safe_issue {tokenHash : String} {challenge : Challenge} (hc : Inv clock c)
    (hdeletes : Deletes ws) (hlock : .mfa challenge.userId ∈ locks)
    (hfree : countChallenges (isPending challenge.userId challenge.createdAt)
      (applyWrites ws c.rows) < maxPendingChallenges)
    (hclock : challenge.createdAt ≤ clock) (hnext : Quiet next) :
    (rules clock).Safe
      (.insert (.challenge tokenHash) (.challenge challenge) (.commit [.issued tokenHash] next))
      locks ws c := by
  intro d hd hnone e he
  have hinv : Inv clock e := he.inv (hd.inv hc)
  have hchanged := hdeletes.keeps challenge.userId e.rows hinv.nodup
  have hfewer : Fewer (isPending challenge.userId challenge.createdAt) e.rows c.rows :=
    (fewer_of_others (List.mem_cons_of_mem _ hlock) he).trans (fewer_of_others hlock hd)
  have hfree' := ((hdeletes.fewer hinv.nodup hfewer).count_le hchanged.nodup).trans_lt hfree
  have hrows : applyWrites (ws ++ [(.challenge tokenHash, inserted (.challenge challenge))]) e.rows =
      put (.challenge tokenHash) (some (.challenge challenge)) (applyWrites ws e.rows) :=
    applyWrites_append ws _ e.rows
  have huses : uses (e.log ++ [.issued tokenHash]) = uses e.log ++ [.issued tokenHash] :=
    uses_append _ _
  rw [hrows]
  refine ⟨⟨?_, [.issued tokenHash], rfl, ?_⟩, ?_, hnext clock _⟩
  · intro other found hget hnot
    rw [get?_put] at hget
    split_ifs at hget with heq
    · cases hget
      exact absurd (List.mem_cons_of_mem _ hlock) hnot
    · exact hchanged.challenges other found hget rfl
  · intro entry hentry id time lockedUntil hcheck
    rw [List.mem_singleton.mp hentry] at hcheck
    cases hcheck
  constructor
  · exact nodup_put hchanged.nodup (.challenge tokenHash) (some (.challenge challenge))
  · intro id time
    refine countChallenges_issue hfree' ?_
    exact (Fewer.count_le (fun _ _ hget _ => hchanged.challenges _ _ hget rfl)
      hchanged.nodup).trans (hinv.capped id time)
  · intro other found hget
    rw [get?_put] at hget
    split_ifs at hget with heq
    · cases hget
      exact hclock
    · exact hinv.dated other found (hchanged.challenges other found hget rfl)
  · intro other found hget
    show unaccepted other (uses (e.log ++ [.issued tokenHash])) = true
    rw [huses, unaccepted_append_singleton, openAfter]
    rw [get?_put] at hget
    split_ifs at hget with heq
    · cases heq
      simp
    · have hopen := hinv.unaccepted other found (hchanged.challenges other found hget rfl)
      simp [hopen]
  · show AcceptedOnce (uses (e.log ++ [.issued tokenHash]))
    rw [huses]
    exact acceptedOnce_append_singleton hinv.once (by simp)
  · intro id
    show Account
      (mfaOf id (put (.challenge tokenHash) (some (.challenge challenge)) (applyWrites ws e.rows)))
      (history id (e.log ++ [.issued tokenHash]))
    rw [mfaOf_put_of_ne (by simp), ((hdeletes.keeps id) e.rows hinv.nodup).mfa, history_append]
    simpa [history, Entry.account?] using hinv.account id

theorem safe_deleteRows {keys : List Key} (hc : Inv clock c) (hdeletes : Deletes ws)
    (hlock : .mfa userId ∈ locks) (hkeys : ∀ key ∈ keys, ∃ tokenHash, key = .challenge tokenHash)
    (hnext : ∀ locks ws d, Inv clock d → Deletes ws → .mfa userId ∈ locks →
      (rules clock).Safe next locks ws d) :
    (rules clock).Safe (deleteRows next keys) locks ws c := by
  induction keys generalizing locks ws c with
  | nil => exact hnext locks ws c hc hdeletes hlock
  | cons key keys ih =>
    intro d hd
    refine ih (hd.inv hc) ?_ (List.mem_cons_of_mem _ hlock)
      fun other hother => hkeys other (List.mem_cons_of_mem _ hother)
    intro w hw
    rcases List.mem_append.mp hw with hw | hw
    · exact hdeletes w hw
    · obtain ⟨tokenHash, rfl⟩ := hkeys key List.mem_cons_self
      exact ⟨tokenHash, List.mem_singleton.mp hw⟩

/-- The second factor is asked of accounts that require it. -/
def Services.AsksRequired (s : Services T) : Prop :=
  ∀ required enrolled, s.afterVerifiedPassword required enrolled = .mfaRequired → required = true

/-- The row is there: an account without one is not asked for a factor. -/
theorem safe_beginPasswordChallenge (hs : s.AsksRequired) (token : String) (peer : Peer)
    (hc : Inv clock c) (hclock : now ≤ clock) :
    (rules clock).Safe (beginPasswordChallenge s userId token peer now) [] [] c := by
  intro d hd
  dsimp only
  cases userAt userId (applyWrites [] d.rows) with
  | none => trivial
  | some user =>
    intro e he
    dsimp only
    split_ifs with hasked hkey
    · exact safe_raise _
    · exact safe_raise _
    have hlock : Key.mfa userId ∈
        lockedKeys (.mfa userId) (Dict.get? (.mfa userId) (applyWrites [] e.rows)) [] := by
      have hrequired := hs _ _ (not_not.mp hasked)
      cases hrow : Dict.get? (Key.mfa userId) (applyWrites [] e.rows) with
      | none =>
        rw [hrow] at hrequired
        cases hrequired
      | some row => exact List.mem_cons_self
    intro f hf free
    refine safe_deleteRows (hf.inv (he.inv (hd.inv hc))) (by simp [Deletes])
      (List.mem_append_right _ hlock) ?_ ?_
    · intro key hkey
      have hmem := (keys_pick_sublist _ _).subset hkey
      obtain ⟨row, -, rfl⟩ := List.mem_map.mp hmem
      exact ⟨row.1, rfl⟩
    · intro locks ws g hg hdeletes hlock h hh
      dsimp only
      have hlength : (pendingExpiries userId now (applyWrites ws h.rows)).length =
          countChallenges (isPending userId now) (applyWrites ws h.rows) := by
        rw [← length_pendingChallenges, pendingExpiries, List.length_insertionSort, List.length_map]
      split_ifs with hmax
      · exact safe_commit_nil (hh.inv hg) (hdeletes.keeps userId) (quiet_answer _)
      · rw [hlength, not_le] at hmax
        exact safe_issue (hh.inv hg) hdeletes hlock hmax hclock (quiet_answer _)

/-! ### Every interleaving -/

abbrev State (T : Type) := System Key Row (Process T) Entry

/-- The recovery codes drawn have distinct digests. -/
def Request.DistinctDigests (s : Services T) : Request → Prop
  | .confirm _ _ drawn _ =>
    ∀ digests, drawn.mapM s.recoveryCodeDigest = some digests → digests.Nodup
  | _ => True

/-- Tables with users and accounts, before any sign-in. -/
structure Initial (rows : Rows) : Prop where
  nodup : (rows.map Prod.fst).Nodup
  challenges : challengesIn rows = []
  locked : ∀ userId, factorMaxFailures ≤ (mfaOf userId rows).failedAttempts →
    (mfaOf userId rows).lockedUntil.isSome = true
  bounded : ∀ userId, (mfaOf userId rows).failedAttempts ≤ factorMaxFailures
  distinct : ∀ userId, (mfaOf userId rows).recoveryHashes.Nodup

theorem Initial.inv (h : Initial rows) (clock : ℤ) : Inv clock ⟨rows, []⟩ := by
  have hnone : ∀ tokenHash challenge,
      Dict.get? (.challenge tokenHash) rows ≠ some (.challenge challenge) := by
    intro tokenHash challenge hget
    have hmem : (tokenHash, challenge) ∈ challengesIn rows :=
      List.mem_filterMap.mpr ⟨_, Dict.mem_of_get? hget, rfl⟩
    rw [h.challenges] at hmem
    cases hmem
  constructor
  · exact h.nodup
  · intro userId time
    have hfewer : Fewer (isOpenAt userId time) rows [] :=
      fun tokenHash challenge hget _ => absurd hget (hnone tokenHash challenge)
    exact (hfewer.count_le h.nodup).trans (Nat.zero_le _)
  · exact fun tokenHash challenge hget => absurd hget (hnone tokenHash challenge)
  · exact fun tokenHash challenge hget => absurd hget (hnone tokenHash challenge)
  · intro tokenHash before after heq
    simp [uses] at heq
  · intro userId
    exact .nil (h.locked userId) (h.bounded userId) (h.distinct userId)

theorem safe_serve (htotp : s.TotpAdvances) (hasks : s.AsksRequired) {request : Request}
    (hclock : request.now ≤ clock) (hdistinct : request.DistinctDigests s) (hc : Inv clock c) :
    (rules clock).Safe (serve s request) [] [] c := by
  cases request with
  | begin userId token peer now => exact safe_beginPasswordChallenge hasks token peer hc hclock
  | verify token code recoveryCode peer now tick =>
    exact safe_verifyPasswordChallenge htotp token code recoveryCode peer tick hc
  | start userId secret ciphertext now => exact safe_startEnrollment secret ciphertext hc
  | confirm ctx code drawn now => exact safe_mfaEnrollConfirm hdistinct hc

def Entry.isFailure : Entry → Bool
  | .failed _ _ => true
  | _ => false

def Entry.isReset : Entry → Bool
  | .reset _ => true
  | _ => false

theorem failuresSinceReset_append_of_no_reset {before middle : List Entry}
    (h : ∀ entry ∈ middle, entry.isReset = false) :
    failuresSinceReset (before ++ middle) =
      failuresSinceReset before + middle.countP Entry.isFailure := by
  induction middle using List.reverseRecOn with
  | nil => simp
  | append_singleton middle entry ih =>
    rw [← List.append_assoc, failuresSinceReset_append_singleton,
      ih fun other hother => h other (List.mem_append_left _ hother), List.countP_append]
    have hentry := h entry (by simp)
    cases entry with
    | reset userId => cases hentry
    | failed userId now => simp [countFailure, Entry.isFailure, Nat.add_assoc]
    | issued tokenHash => simp [countFailure, Entry.isFailure]
    | accepted tokenHash userId factor now => simp [countFailure, Entry.isFailure]
    | enrolled userId counter now => simp [countFailure, Entry.isFailure]

/-- At a time no challenge is issued after, the challenges that have not expired are open. -/
theorem Inv.countPending_le (h : Inv clock c) (userId : ℕ) :
    countChallenges (isPending userId clock) c.rows ≤ maxPendingChallenges := by
  refine le_trans (List.countP_mono_left ?_) (h.capped userId clock)
  rintro ⟨key, row⟩ hmem hp
  obtain ⟨found, hfound, hpending⟩ := (Option.any_eq_true _ _).mp hp
  obtain ⟨rfl, rfl⟩ := challengeOf_eq_some hfound
  have hdated := h.dated _ _ ((Dict.mem_iff_get? h.nodup).mp hmem)
  refine (Option.any_eq_true _ _).mpr ⟨found, hfound, ?_⟩
  simp [isOpenAt, hpending, hdated]

/-- What is promised of a run, at a time no request's clock was past. -/
structure Promised (s : Services T) (clock : ℤ) (initial : State T) (actions : List (Action Request)) :
    Prop where
  /-- A challenge is accepted at most once: a token accepted twice was issued anew in between. -/
  challengeOnce : ∀ tokenHash before middle after,
    uses (Steps.run (step (serve s)) initial actions).log =
      before ++ .accepted tokenHash :: (middle ++ .accepted tokenHash :: after) →
    .issued tokenHash ∈ middle
  counterOnce : ∀ userId,
    (counters (history userId (Steps.run (step (serve s)) initial actions).log)).Nodup
  recoveryCodeOnce : ∀ userId,
    (spentDigests (history userId (Steps.run (step (serve s)) initial actions).log)).Nodup
  capped : ∀ userId,
    (pendingChallenges userId clock (Steps.run (step (serve s)) initial actions).rows).length ≤
      maxPendingChallenges
  /-- No check succeeds or is counted while the account is locked. -/
  unlocked : Steps.Along (step (serve s))
    (fun state a => ∀ entry ∈ state.commits a, Unlocked state.rows entry) initial actions
  /-- The failures counted between two resets. -/
  budget : ∀ userId before middle after,
    history userId (Steps.run (step (serve s)) initial actions).log = before ++ middle ++ after →
    (∀ entry ∈ middle, entry.isReset = false) →
    middle.countP Entry.isFailure ≤ factorMaxFailures

theorem mfa_protocol (s : Services T) (htotp : s.TotpAdvances) (hasks : s.AsksRequired)
    {rows : Rows} (hrows : Initial rows) (process : Process T) {actions : List (Action Request)}
    (hdistinct : ∀ request, .start request ∈ actions → request.DistinctDigests s) {clock : ℤ}
    (hclock : ∀ request, .start request ∈ actions → request.now ≤ clock) :
    Promised s clock { rows := rows, memory := process } actions := by
  obtain ⟨hinv, hmoves⟩ := run_safe_of_started (rules clock) (serve s)
    (fun request hstart c hc =>
      safe_serve htotp hasks (hclock request hstart) (hdistinct request hstart) hc)
    (hrows.inv clock) process
  constructor
  · intro tokenHash before middle after heq
    exact hinv.once.issued_between heq
  · exact fun userId => (hinv.account userId).increasing.imp fun hlt => ne_of_lt hlt
  · exact fun userId => (hinv.account userId).once
  · intro userId
    rw [length_pendingChallenges]
    exact hinv.countPending_le userId
  · refine hmoves.imp fun state a hmove entry hentry => ?_
    have hlog := step_log (serve s) state a
    rcases hmove with hsame | ⟨locks, hguarantee⟩
    · have hnone : state.log ++ state.commits a = state.log :=
        hlog.symm.trans (congrArg Committed.log hsame)
      rw [List.append_right_eq_self.mp hnone] at hentry
      cases hentry
    · obtain ⟨entries, hentries, hall⟩ := hguarantee.unlocked
      rw [List.append_cancel_left (hentries.symm.trans hlog)] at hall
      exact hall entry hentry
  · intro userId before middle after heq hresets
    have hbudget := (hinv.account userId).budget (before ++ middle) ⟨after, heq.symm⟩
    rw [failuresSinceReset_append_of_no_reset hresets] at hbudget
    omega

/-- Services with one code for every counter, kept in clear. -/
def plainServices : Services Unit where
  afterVerifiedPassword required enrolled :=
    if required = false then .authenticated
    else if enrolled = false then .mfaEnrollmentRequired
    else .mfaRequired
  verifyTotp secret code now lastCounter :=
    if secret = "JBSWY3DP" ∧ code = "492039" ∧ lastCounter.getD (-1) < now / seconds 30 then
      some (now / seconds 30)
    else none
  recoveryCodeDigest code := if code = "" then none else some code
  fingerprint text := text
  keyProvisioned := true
  decrypt _ ciphertext := some ciphertext
  checkLoginAllowed _ _ _ throttle := (throttle, true)
  recordLoginFailure _ _ _ throttle := throttle
  recordLoginSuccess _ throttle := throttle

def oneUser : State Unit :=
  { rows := [(.user 1, .user { username := "ana", role := "OPERATOR" })], memory := ⟨(), []⟩ }

/-- An enrolment and a sign-in, with two sessions racing for its challenge. -/
def racingRun : List (Action Request) :=
  [.start (.start 1 "JBSWY3DP" "JBSWY3DP" 0)] ++ List.replicate 4 (.run 0) ++
  [.start (.confirm ⟨1, "OPERATOR", 1⟩ "492039" ["r1", "r2"] (seconds 60))] ++
  List.replicate 6 (.run 1) ++
  [.start (.begin 1 "t" ⟨some "10.0.0.7", none⟩ (seconds 90))] ++ List.replicate 7 (.run 2) ++
  [.start (.verify "t" "492039" "" ⟨some "10.0.0.7", none⟩ (seconds 120) 0),
    .start (.verify "t" "492039" "" ⟨some "10.0.0.7", none⟩ (seconds 121) 0), .run 3, .run 4] ++
  List.replicate 9 (.run 3) ++ List.replicate 3 (.run 4)

theorem racingRun_promised :
    Promised plainServices (seconds 121) oneUser racingRun ∧
      (Steps.run (step (serve plainServices)) oneUser racingRun).log =
        [.reset 1, .enrolled 1 2 (seconds 60), .issued "t", .reset 1,
          .accepted "t" 1 (.totp 4) (seconds 120)] := by
  constructor
  · refine mfa_protocol plainServices ?_ ?_ ⟨by decide, by decide, ?_, ?_, ?_⟩ _ ?_ ?_
    · intro secret code now last counter h
      simp only [plainServices, Option.getD_some] at h
      split_ifs at h with hcode
      cases h
      exact hcode.2.2
    · intro required enrolled h
      cases required with
      | true => rfl
      | false => simp [plainServices] at h
    · intro userId hmax
      exact absurd hmax (by simp [mfaOf, Dict.get?, factorMaxFailures])
    · intro userId
      simp [mfaOf, Dict.get?]
    · intro userId
      simp [mfaOf, Dict.get?]
    · intro request hstart
      simp only [racingRun, List.mem_append, List.mem_cons, List.mem_replicate, Action.start.injEq,
        reduceCtorEq, and_false, or_false, List.not_mem_nil] at hstart
      rcases hstart with ((rfl | rfl) | rfl) | rfl | rfl
      · trivial
      · intro digests hdigests
        have heq : digests = ["r1", "r2"] := by simpa [plainServices] using hdigests.symm
        rw [heq]
        decide
      · trivial
      · trivial
      · trivial
    · intro request hstart
      simp only [racingRun, List.mem_append, List.mem_cons, List.mem_replicate, Action.start.injEq,
        reduceCtorEq, and_false, or_false, List.not_mem_nil] at hstart
      rcases hstart with ((rfl | rfl) | rfl) | rfl | rfl <;> decide
  · rfl

end Mfa
