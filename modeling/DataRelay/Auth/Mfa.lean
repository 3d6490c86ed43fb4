import DataRelay.Lib.PyText
import DataRelay.Lib.ReadCommitted
import Mathlib.Data.List.Sort

/-! Sign-in with a second factor: the password stage issues a challenge, the factor stage consumes
it, and enrolment installs the secret and the recovery codes. Every stage is a session on the
product database that takes row locks as it goes. Times are in microseconds. -/
namespace Mfa
open ReadCommitted PyText

def seconds (n : ℤ) : ℤ := n * 1000000

def challengeSeconds : ℤ := 180
def maxPendingChallenges : ℕ := 5
def enrollmentSeconds : ℤ := 300
def factorMaxFailures : ℕ := 8
def factorWindowSeconds : ℤ := 15 * 60
def factorLockSeconds : ℤ := 5 * 60

/-- `PlatformUser`. -/
structure User where
  username : String
  role : String
  status : String := "ACTIVE"
  tokenVersion : ℤ := 1
  mustChangePassword : Bool := false
  lastLoginAt : Option ℤ := none
  deriving DecidableEq, Repr

/-- `PlatformUserMfa`. -/
structure UserMfa where
  required : Bool := false
  secretCiphertext : Option String := none
  pendingSecretCiphertext : Option String := none
  pendingExpiresAt : Option ℤ := none
  lastCounter : ℤ := -1
  recoveryHashes : List String := []
  failedAttempts : ℕ := 0
  failureWindowStartedAt : Option ℤ := none
  lockedUntil : Option ℤ := none
  deriving DecidableEq, Repr

/-- `PlatformMfaChallenge`; its token hash is the key. -/
structure Challenge where
  userId : ℕ
  tokenVersion : ℤ
  role : String
  sourceHash : String
  userAgentHash : String
  createdAt : ℤ
  expiresAt : ℤ
  deriving DecidableEq, Repr

inductive Key where
  | user (id : ℕ)
  | mfa (userId : ℕ)
  | challenge (tokenHash : String)
  deriving DecidableEq, Repr

inductive Row where
  | user (user : User)
  | mfa (mfa : UserMfa)
  | challenge (challenge : Challenge)
  deriving DecidableEq, Repr

inductive Factor where
  | totp (counter : ℤ)
  | recovery (digest : String)
  deriving DecidableEq, Repr

/-- What the commits say they did. A reset is a call of `_clear_factor_failures`. -/
inductive Entry where
  | issued (tokenHash : String)
  | accepted (tokenHash : String) (userId : ℕ) (factor : Factor) (now : ℤ)
  | enrolled (userId : ℕ) (counter : ℤ) (now : ℤ)
  | failed (userId : ℕ) (now : ℤ)
  | reset (userId : ℕ)
  deriving DecidableEq, Repr

/-- What a request is answered. -/
inductive Reply where
  | challengeToken (token : String) (expiresAt : ℤ)
  | challengeLimit (retryAfter : ℤ)
  | enrollmentRequired
  | keyUnavailable
  | secretUnavailable
  | verificationFailed
  | rateLimited (retryAfter : ℤ)
  | loginRateLimited
  | verified (userId : ℕ)
  | alreadyEnabled
  | enrollmentStarted (secret : String) (expiresAt : ℤ)
  | roleInvalid
  | tokenRevoked
  | passwordChangeRequired
  | setupMissing
  | setupExpired
  | codeInvalid
  | recoveryCodes (codes : List String)
  deriving DecidableEq, Repr

inductive PasswordResult where
  | authenticated
  | mfaRequired
  | mfaEnrollmentRequired
  deriving DecidableEq, Repr

/-- What the security package, the settings and the login throttle of a process with states in
`T` do. -/
structure Services (T : Type) where
  /-- `UserMfaState(required, enrolled).after_verified_password()`. -/
  afterVerifiedPassword : Bool → Bool → PasswordResult
  /-- `verify_totp(secret, code, now, last_counter)`; `last_counter` has a default. -/
  verifyTotp : String → String → ℤ → Option ℤ → Option ℤ
  /-- `recovery_code_digest`; a malformed code raises. -/
  recoveryCodeDigest : String → Option String
  /-- SHA-256 in hexadecimal. -/
  fingerprint : String → String
  /-- `GDC_MFA_ENCRYPTION_KEY_HEX` holds a key. -/
  keyProvisioned : Bool
  decrypt : ℕ → String → Option String
  checkLoginAllowed : String → String → ℤ → T → T × Bool
  recordLoginFailure : String → String → ℤ → T → T
  recordLoginSuccess : String → T → T

/-- What a process keeps outside the database: the throttle, and the answers it has given. -/
structure Process (T : Type) where
  throttle : T
  replies : List Reply := []

abbrev Rows := Table Key Row

abbrev Code (T : Type) := Program Key Row (Process T) Entry

/-- The direct TCP client of a request. -/
structure Peer where
  host : Option String
  userAgent : Option String
  deriving DecidableEq, Repr

def Row.mfa? : Row → Option UserMfa
  | .mfa columns => some columns
  | _ => none

def Row.user? : Row → Option User
  | .user columns => some columns
  | _ => none

def Row.challenge? : Row → Option Challenge
  | .challenge columns => some columns
  | _ => none

def userAt (id : ℕ) (rows : Rows) : Option User := (Dict.get? (.user id) rows).bind Row.user?

/-- A column with a text that is not empty. -/
def present (text : Option String) : Bool := text.any (· ≠ "")

/-- `int(user.token_version or 1)`. -/
def versionOf (user : User) : ℤ := if user.tokenVersion = 0 then 1 else user.tokenVersion

section services

variable {T : Type} (s : Services T)

/-- The end of a request. -/
def answer (reply : Reply) : Code T :=
  .memory (fun p => { p with replies := p.replies ++ [reply] }) fun _ => .done

/-- A request that raises: its transaction is rolled back. -/
def raise (reply : Reply) : Code T := .rollback (answer reply)

/-- `_binding`. -/
def binding (peer : Peer) : String × String :=
  (s.fingerprint (String.ofList ((peer.host.getD "unknown").toList.take 128)),
    s.fingerprint (String.ofList ((peer.userAgent.getD "").toList.take 1024)))

/-- `_unseal`. -/
def unsealSecret (userId : ℕ) (ciphertext : String) : Except Reply String :=
  if s.keyProvisioned = false then .error .keyUnavailable
  else
    match s.decrypt userId ciphertext with
    | some secret => .ok secret
    | none => .error .secretUnavailable

/-! ### The failure window -/

/-- `_clear_factor_failures`. -/
def clearFactorFailures (row : UserMfa) : UserMfa :=
  { row with failedAttempts := 0, failureWindowStartedAt := none, lockedUntil := none }

/-- `_record_factor_failure`. -/
def recordFactorFailure (now : ℤ) (row : UserMfa) : UserMfa :=
  { row with
    failureWindowStartedAt := some (row.failureWindowStartedAt.getD now)
    failedAttempts := row.failedAttempts + 1
    lockedUntil :=
      if row.failedAttempts + 1 ≥ factorMaxFailures then some (now + seconds factorLockSeconds)
      else row.lockedUntil }

/-- `max(1, int(interval.total_seconds()))`. -/
def waitSeconds (interval : ℤ) : ℤ := max 1 (interval / 1000000)

/-- The window is over, or the lock that closed it. -/
def windowEnded (now : ℤ) (row : UserMfa) : Bool :=
  row.lockedUntil.isSome ||
    row.failureWindowStartedAt.any fun started => seconds factorWindowSeconds ≤ now - started

/-- `_check_factor_window`: the time to wait, or the row with its window checked. -/
def checkFactorWindow (now : ℤ) (row : UserMfa) : Except ℤ UserMfa :=
  match row.lockedUntil with
  | some lockedUntil =>
    if now < lockedUntil then .error (waitSeconds (lockedUntil - now))
    else .ok (clearFactorFailures row)
  | none => .ok (if windowEnded now row then clearFactorFailures row else row)

/-- What the check of the window records. -/
def windowEntries (userId : ℕ) (now : ℤ) (row : UserMfa) : List Entry :=
  if windowEnded now row then [.reset userId] else []

/-! ### The password stage -/

/-- A row of the table of challenges. -/
def challengeOf : Key × Row → Option (String × Challenge)
  | (.challenge tokenHash, .challenge challenge) => some (tokenHash, challenge)
  | _ => none

def challengesIn (rows : Rows) : List (String × Challenge) := rows.filterMap challengeOf

/-- The expired challenges of a user. -/
def expiredChallenges (userId : ℕ) (now : ℤ) (rows : Rows) : List Key :=
  ((challengesIn rows).filter fun row =>
    row.2.userId = userId && row.2.expiresAt ≤ now).map fun row => .challenge row.1

def isPending (userId : ℕ) (now : ℤ) (challenge : Challenge) : Bool :=
  challenge.userId = userId && now < challenge.expiresAt

/-- The challenges of a user that have not expired. -/
def pendingChallenges (userId : ℕ) (now : ℤ) (rows : Rows) : List (String × Challenge) :=
  (challengesIn rows).filter fun row => isPending userId now row.2

/-- When they expire, in order. -/
def pendingExpiries (userId : ℕ) (now : ℤ) (rows : Rows) : List ℤ :=
  ((pendingChallenges userId now rows).map fun row => row.2.expiresAt).insertionSort (· ≤ ·)

def deleteRows (next : Code T) : List Key → Code T
  | [] => next
  | key :: keys => .write key (fun _ => none) (deleteRows next keys)

/-- `begin_password_challenge`, after the password was found right. -/
def beginPasswordChallenge (userId : ℕ) (token : String) (peer : Peer) (now : ℤ) : Code T :=
  .read fun rows =>
    match userAt userId rows with
    | none => .done
    | some user =>
      .lock (.mfa userId) fun row =>
        let mfa := row.bind Row.mfa?
        if s.afterVerifiedPassword (mfa.any (·.required))
            (mfa.any fun mfa => present mfa.secretCiphertext) ≠ .mfaRequired then
          raise .enrollmentRequired
        else if s.keyProvisioned = false then raise .keyUnavailable
        else
          .lockFree (expiredChallenges userId now) fun expired =>
            deleteRows
              (.read fun rows =>
                let pending := pendingExpiries userId now rows
                if pending.length ≥ maxPendingChallenges then
                  .commit [] (answer (.challengeLimit (waitSeconds (pending.headD now - now))))
                else
                  .insert (.challenge (s.fingerprint token))
                    (.challenge {
                      userId := userId, tokenVersion := versionOf user, role := user.role
                      sourceHash := (binding s peer).1, userAgentHash := (binding s peer).2
                      createdAt := now, expiresAt := now + seconds challengeSeconds })
                    (.commit [.issued (s.fingerprint token)]
                      (answer (.challengeToken token (now + seconds challengeSeconds)))))
              (expired.map Prod.fst)

/-! ### The factor stage -/

/-- The account a challenge is valid for. -/
def validAccount (now : ℤ) (peer : Peer) (challenge : Challenge) (user : Option User)
    (mfa : Option UserMfa) : Option (User × UserMfa) :=
  match user, mfa with
  | some user, some mfa =>
    if user.status = "ACTIVE" ∧ mfa.required = true ∧ present mfa.secretCiphertext = true ∧
        versionOf user = challenge.tokenVersion ∧ user.role = challenge.role ∧
        now < challenge.expiresAt ∧
        binding s peer = (challenge.sourceHash, challenge.userAgentHash) then
      some (user, mfa)
    else none
  | _, _ => none

/-- The factor that matches, of a code or a recovery code. -/
def matchFactor (userId : ℕ) (mfa : UserMfa) (code recoveryCode : String) (now : ℤ) :
    Except Reply (Option Factor) :=
  if code ≠ "" ∧ recoveryCode = "" then
    match unsealSecret s userId (mfa.secretCiphertext.getD "") with
    | .ok secret => .ok ((s.verifyTotp secret code now (some mfa.lastCounter)).map .totp)
    | .error reply => .error reply
  else if recoveryCode ≠ "" ∧ code = "" then
    if s.keyProvisioned = false then .error .keyUnavailable
    else
      match s.recoveryCodeDigest recoveryCode with
      | some target => .ok (if target ∈ mfa.recoveryHashes then some (.recovery target) else none)
      | none => .ok none
  else .ok none

/-- The row after a factor was accepted. -/
def consumeFactor (mfa : UserMfa) : Factor → UserMfa
  | .totp counter => { mfa with lastCounter := counter }
  | .recovery digest => { mfa with recoveryHashes := mfa.recoveryHashes.erase digest }

def storeMfa (userId : ℕ) (mfa : UserMfa) (next : Code T) : Code T :=
  .write (.mfa userId) (fun _ => some (.mfa mfa)) next

def updateUser (f : User → User) : Option Row → Option Row
  | some (.user user) => some (.user (f user))
  | row => row

/-- The check of the factor, with the account's rows locked and the challenge deleted. -/
def verifyFactor (tokenHash : String) (userId : ℕ) (user : User) (mfa : UserMfa)
    (code recoveryCode : String) (peer : Peer) (now tick : ℤ) : Code T :=
  let ip := peer.host.getD "unknown"
  match checkFactorWindow now mfa with
  | .error wait => .commit [] (answer (.rateLimited wait))
  | .ok checked =>
    .memory (fun p =>
        { p with throttle := (s.checkLoginAllowed user.username ip tick p.throttle).1 })
      fun p =>
        if (s.checkLoginAllowed user.username ip tick p.throttle).2 = false then
          storeMfa userId checked
            (.commit (windowEntries userId now mfa) (answer .loginRateLimited))
        else
          match matchFactor s userId checked code recoveryCode now with
          | .error reply => raise reply
          | .ok none =>
            storeMfa userId (recordFactorFailure now checked)
              (.commit (windowEntries userId now mfa ++ [.failed userId now])
                (.memory (fun p => { p with
                    throttle := s.recordLoginFailure user.username ip tick p.throttle })
                  fun _ => answer .verificationFailed))
          | .ok (some factor) =>
            storeMfa userId (consumeFactor (clearFactorFailures checked) factor)
              (.write (.user userId) (updateUser fun user => { user with lastLoginAt := some now })
                (.commit
                  (windowEntries userId now mfa ++
                    [.reset userId, .accepted tokenHash userId factor now])
                  (.memory (fun p => { p with
                      throttle := s.recordLoginSuccess user.username p.throttle })
                    fun _ => answer (.verified userId))))

/-- `verify_password_challenge`. -/
def verifyPasswordChallenge (token code recoveryCode : String) (peer : Peer) (now tick : ℤ) :
    Code T :=
  .lock (.challenge (s.fingerprint token)) fun row =>
    match row.bind Row.challenge? with
    | none => raise .verificationFailed
    | some challenge =>
      .lock (.user challenge.userId) fun userRow =>
        .lock (.mfa challenge.userId) fun mfaRow =>
          .write (.challenge (s.fingerprint token)) (fun _ => none)
            (match validAccount s now peer challenge (userRow.bind Row.user?)
                (mfaRow.bind Row.mfa?) with
            | none => .commit [] (answer .verificationFailed)
            | some (user, mfa) =>
              verifyFactor s (s.fingerprint token) challenge.userId user mfa code recoveryCode
                peer now tick)

/-! ### Enrolment -/

/-- `start_enrollment` of a row that is there or is made now: `ciphertext` is the new secret's. -/
def startEnrollment (userId : ℕ) (secret ciphertext : String) (now : ℤ) : Code T :=
  if s.keyProvisioned = false then raise .keyUnavailable
  else
    .lock (.mfa userId) fun row =>
      match row with
      | none =>
        .insert (.mfa userId)
          (.mfa {
            pendingSecretCiphertext := some ciphertext
            pendingExpiresAt := some (now + seconds enrollmentSeconds) })
          (.commit [] (answer (.enrollmentStarted secret (now + seconds enrollmentSeconds))))
      | some row =>
        match row.mfa? with
        | none => .done
        | some mfa =>
          if mfa.required = true ∨ present mfa.secretCiphertext = true then raise .alreadyEnabled
          else
            match checkFactorWindow now mfa with
            | .error wait => raise (.rateLimited wait)
            | .ok checked =>
              storeMfa userId
                { checked with
                  pendingSecretCiphertext := some ciphertext
                  pendingExpiresAt := some (now + seconds enrollmentSeconds) }
                (.commit (windowEntries userId now mfa)
                  (answer (.enrollmentStarted secret (now + seconds enrollmentSeconds))))

/-- The identity a request's token carries. -/
structure AuthContext where
  userId : ℕ
  role : String
  tokenVersion : ℤ
  deriving DecidableEq, Repr

def knownRoles : List String :=
  ["ADMINISTRATOR", "OPERATOR", "CONNECTOR_OPERATOR", "GOVERNANCE_OPERATOR",
    "GOVERNANCE_REVIEWER", "GOVERNANCE_APPROVER", "GOVERNANCE_AUDITOR", "VIEWER"]

/-- `_current_mfa_actor` of the row it has locked. -/
def currentMfaActor (ctx : AuthContext) (row : Option Row) : Except Reply User :=
  match row.bind Row.user? with
  | none => .error .tokenRevoked
  | some user =>
    if user.status ≠ "ACTIVE" then .error .tokenRevoked
    else if upper (strip user.role) ∉ knownRoles then .error .roleInvalid
    else if upper (strip user.role) ≠ ctx.role ∨ versionOf user ≠ ctx.tokenVersion then
      .error .tokenRevoked
    else if user.mustChangePassword then .error .passwordChangeRequired
    else .ok user

/-- The row of an account that is enrolled now. -/
def enrolledRow (mfa checked : UserMfa) (counter : ℤ) (digests : List String) : UserMfa :=
  { clearFactorFailures checked with
    secretCiphertext := mfa.pendingSecretCiphertext
    pendingSecretCiphertext := none, pendingExpiresAt := none
    required := true, lastCounter := counter, recoveryHashes := digests }

/-- `confirm_enrollment` of the row it has locked; `drawn` are the recovery codes drawn now. -/
def confirmRow (userId : ℕ) (user : User) (mfa : UserMfa) (code : String) (drawn : List String)
    (now : ℤ) : Code T :=
  match mfa.pendingExpiresAt with
  | none => raise .setupMissing
  | some pendingExpiresAt =>
    if mfa.required = true ∨ present mfa.pendingSecretCiphertext = false then raise .setupMissing
    else
      match checkFactorWindow now mfa with
      | .error wait => raise (.rateLimited wait)
      | .ok checked =>
        if pendingExpiresAt ≤ now then
          storeMfa userId
            { checked with pendingSecretCiphertext := none, pendingExpiresAt := none }
            (.commit (windowEntries userId now mfa) (answer .setupExpired))
        else
          match unsealSecret s userId (mfa.pendingSecretCiphertext.getD "") with
          | .error reply => raise reply
          | .ok secret =>
            match s.verifyTotp secret code now none with
            | none =>
              storeMfa userId (recordFactorFailure now checked)
                (.commit (windowEntries userId now mfa ++ [.failed userId now])
                  (answer .codeInvalid))
            | some counter =>
              match drawn.mapM s.recoveryCodeDigest with
              | none => .rollback .done
              | some digests =>
                storeMfa userId (enrolledRow mfa checked counter digests)
                  (.write (.user userId)
                    (updateUser fun row => { row with tokenVersion := versionOf user + 1 })
                    (.commit
                      (windowEntries userId now mfa ++
                        [.reset userId, .enrolled userId counter now])
                      (answer (.recoveryCodes drawn))))

/-- `confirm_enrollment`. -/
def confirmEnrollment (userId : ℕ) (user : User) (code : String) (drawn : List String) (now : ℤ) :
    Code T :=
  .lock (.mfa userId) fun row =>
    match row.bind Row.mfa? with
    | none => raise .setupMissing
    | some mfa => confirmRow s userId user mfa code drawn now

/-- `mfa_enroll_confirm`. -/
def mfaEnrollConfirm (ctx : AuthContext) (code : String) (drawn : List String) (now : ℤ) :
    Code T :=
  .lock (.user ctx.userId) fun row =>
    match currentMfaActor ctx row with
    | .error reply => raise reply
    | .ok user => confirmEnrollment s ctx.userId user code drawn now

/-- A request, with the clock it has read and what it draws at random. -/
inductive Request where
  | begin (userId : ℕ) (token : String) (peer : Peer) (now : ℤ)
  | verify (token code recoveryCode : String) (peer : Peer) (now tick : ℤ)
  | start (userId : ℕ) (secret ciphertext : String) (now : ℤ)
  | confirm (ctx : AuthContext) (code : String) (drawn : List String) (now : ℤ)

/-- The clock a request has read. -/
def Request.now : Request → ℤ
  | .begin _ _ _ now => now
  | .verify _ _ _ _ now _ => now
  | .start _ _ _ now => now
  | .confirm _ _ _ now => now

def serve : Request → Code T
  | .begin userId token peer now => beginPasswordChallenge s userId token peer now
  | .verify token code recoveryCode peer now tick =>
    verifyPasswordChallenge s token code recoveryCode peer now tick
  | .start userId secret ciphertext now => startEnrollment s userId secret ciphertext now
  | .confirm ctx code drawn now => mfaEnrollConfirm s ctx code drawn now

end services

end Mfa
