import TransportBackend.RegistrationStore

/-!
# Signing in: the services

A port of `SessionService` (session.service.ts) and of `RegistrationService`
(registration.service.ts): one program a method, its awaits the commands of `AuthCmd`.  The tokens a
sign-in or refresh hands out are its last command (`answer`), so that a trace shows who got in.

The HMAC of a code, the accounts of the reviewers and `trim().toLowerCase()` are part of the setup.
-/

namespace TransportBackend.RegistrationService

open TransportBackend.AtomicProgram
open TransportBackend.AtomicProgram.Prog (refuseIf orThrow attempt)
open TransportBackend.RedisStore
open TransportBackend.RegistrationStore
open TransportBackend.SubscriptionStore (AccountType)

/-! ### The setup -/

/-- What the server is started with. -/
structure Setup where
  smsOtpEnabled : Bool
  reviewCode : String → Option String
  digest : String → String → String
  lowered : String → String

def otpTtlSeconds : ℕ := 300

def otpCooldownSeconds : ℕ := 60

def maxAttempts : ℕ := 5

def maxSends : ℕ := 3

def sendsBlockSeconds : ℕ := 3600

def signupTtlSeconds : ℕ := 600

def refreshTtlSeconds : ℕ := 30 * 24 * 3600

def sessionTtlSeconds : ℕ := 30 * 24 * 3600

def adminSignInTries : ℕ := 5

def adminSignInPauseSeconds : ℕ := 15 * 60

def lockSeconds : ℕ := 120

def selfServiceAccountTypes : List AccountType := [.driver, .company, .factory, .broker]

/-! ### Sessions -/

/-- What a token carries about its session. -/
structure SessionClaims where
  sid : Option ℕ
  multi : Bool
  deriving DecidableEq

def sessionReplaced : AuthError := .unauthorized "SESSION_REPLACED"

def start (userId : ℕ) (multi : Bool) : Auth ℕ := do
  let sid ← random
  if multi then pure sid
  else do
    redis (.set (.activeSession userId) (.session sid) sessionTtlSeconds)
    pure sid

def resume (userId : ℕ) (multi : Bool) (sid : Option ℕ) : Auth ℕ :=
  if multi then
    match sid with
    | some sid => pure sid
    | none => random
  else do
    let active ← redis (.get (.activeSession userId))
    match sid with
    | none => do
        refuseIf (sessionOf active ≠ none) sessionReplaced
        start userId multi
    | some sid => do
        refuseIf (sessionOf active ≠ some sid) sessionReplaced
        let _ ← redis (.expire (.activeSession userId) sessionTtlSeconds)
        pure sid

def isCurrent (userId : ℕ) (claims : SessionClaims) : Auth Bool :=
  if claims.multi then pure true
  else do
    let active ← redis (.get (.activeSession userId))
    pure (decide (sessionOf active = claims.sid))

def endSession (userId : ℕ) : Option ℕ → Auth Unit
  | some sid => redis (.deleteIfValue (.activeSession userId) (.session sid))
  | none => pure ()

/-! ### Tokens -/

section Service

variable (cfg : Setup)

/-- A reviewer's account that still waits for its approval. -/
def reviewerWaits (user : User) : Bool :=
  user.verificationStatus ≠ some .approved ∧ ((user.mobile.bind cfg.reviewCode).isSome = true)

/-- A reviewer's account is approved on its way in. -/
def approveReviewer (user : User) : Auth Unit :=
  if reviewerWaits cfg user then ask (.approveReviewer user.id) else pure ()

def issueTokens (user : User) (sid : ℕ) : Auth TokenPair := do
  refuseIf (user.isActive = false ∨ user.roles = []) (.unauthorized "Unauthorized")
  approveReviewer cfg user
  let refreshToken ← random
  redis (.set (.refreshToken refreshToken) (.refresh user.id (some sid)) refreshTtlSeconds)
  pure ⟨user.id, sid, user.isParentCompany, refreshToken⟩

def signIn (user : User) (quiet : Bool) : Auth TokenPair := do
  let sid ← start user.id user.isParentCompany
  let tokens ← issueTokens cfg user sid
  ask (.publishSignedIn user.id sid quiet)
  pure tokens

def revoke (token : ℕ) : Auth Unit := do
  let value ← redis (.take (.refreshToken token))
  match readRefresh value with
  | none => pure ()
  | some held => endSession held.1 held.2

def refresh (token : ℕ) : Auth TokenPair := do
  let value ← redis (.take (.refreshToken token))
  let held ← orThrow (.unauthorized "Invalid or expired refresh token.") (readRefresh value)
  let found ← ask (.findById held.1)
  let user ← orThrow (.unauthorized "Unauthorized") found
  let session ← resume user.id user.isParentCompany held.2
  ask (.markInvitesUsed user.mobile)
  issueTokens cfg user session

/-! ### The admin's sign-in -/

/-- Counts within a window: the first increment starts the time to live, later ones keep it. -/
def increment (key : AuthKey) (ttlSeconds : ℕ) : Auth ℕ := do
  let count ← redis (.incr key)
  if count = 1 then do
    let _ ← redis (.expire key ttlSeconds)
    pure count
  else pure count

/-- Whether the password is the row's. -/
def passwordValid (password : String) : Option AdminRow → Auth Bool
  | some ⟨_, some hash⟩ => ask (.verifyPassword hash password)
  | _ => pure false

/-- The account of the row, when the password is its. -/
def adminOf (valid : Bool) : Option AdminRow → Auth (Option User)
  | some row => if valid then ask (.findById row.id) else pure none
  | none => pure none

def adminSignIn (username password : String) : Auth TokenPair := do
  let failures := AuthKey.adminSignInFailures (cfg.lowered username)
  let tries ← redis (.get failures)
  refuseIf (adminSignInTries ≤ countOf tries)
    (.tooMany "تلاش‌های ناموفق زیاد بود؛ چند دقیقه‌ی دیگر دوباره امتحان کنید." none)
  let row ← ask (.adminRow (cfg.lowered username))
  let valid ← passwordValid password row
  let found ← adminOf valid row
  match found.filter fun user => "ADMIN" ∈ user.roles with
  | none => do
      let _ ← increment failures adminSignInPauseSeconds
      .throw (.unauthorized "نام کاربری یا رمز عبور درست نیست.")
  | some user => do
      redis (.delete [failures])
      signIn cfg user true

/-! ### Codes -/

/-- Gives its lock back whatever the operation comes to. -/
def withLock {α : Type} (phone : String) (operation : Auth α) : Auth α := do
  let owner ← random
  let taken ← redis (.setIfAbsent (.registrationLock phone) (.owner owner) lockSeconds)
  refuseIf (taken = false) (.conflict "Another request for this phone number is in progress.")
  let result ← attempt operation
  redis (.deleteIfValue (.registrationLock phone) (.owner owner))
  match result with
  | .ok a => pure a
  | .error e => .throw e

def tooManyCodes (retryAfter : ℤ) : AuthError :=
  .tooMany ("Too many codes requested. Try again in " ++ toString ((retryAfter + 59) / 60) ++ " minutes.")
    (some retryAfter)

/-- The code of a reviewer's number, or the one the provider sends. -/
def codeFor (phone : String) : Auth String :=
  match cfg.reviewCode phone with
  | some code => pure code
  | none => ask (.sendOtp phone)

/-- A code is sent, kept and counted. -/
def issueCode (phone : String) : Auth Unit := do
  let code ← codeFor cfg phone
  let now ← dateNow
  redis (.set (.registration phone)
    (.pending ⟨cfg.digest phone code, now + otpTtlSeconds * 1000, 0⟩) otpTtlSeconds)
  let _ ← increment (.registrationSends phone) sendsBlockSeconds
  let _ ← redis (.expire (.registrationSends phone) sendsBlockSeconds)
  pure ()

def sendCode (phone : String) : Auth Unit := do
  let sends ← redis (.get (.registrationSends phone))
  if maxSends ≤ countOf sends then do
    let left ← redis (.ttl (.registrationSends phone))
    .throw (tooManyCodes (max 1 left))
  else do
    let fresh ← redis (.setIfAbsent (.registrationCooldown phone) .one otpCooldownSeconds)
    refuseIf (fresh = false) (.tooMany "Wait 60 seconds before requesting another code." none)
    let sent ← attempt (issueCode cfg phone)
    match sent with
    | .ok _ => pure ()
    | .error e => do
        redis (.delete [.registration phone, .registrationCooldown phone])
        .throw e

def requestOtp (phone : String) : Auth Unit :=
  if cfg.smsOtpEnabled then withLock phone (sendCode cfg phone) else pure ()

/-- The seconds a pending code has left, at least one. -/
def pendingTtl (pending : PendingOtp) (now : ℕ) : ℕ := max 1 ((pending.expiresAt - now + 999) / 1000)

/-- The code is compared with the pending one; a wrong one counts as an attempt. -/
def checkCode (phone code : String) : Auth Unit := do
  let raw ← redis (.get (.registration phone))
  match pendingOf raw with
  | none => .throw (.badRequest "Verification code has expired or does not exist.")
  | some pending => do
      let now ← dateNow
      refuseIf (pending.expiresAt ≤ now) (.badRequest "Verification code has expired or does not exist.")
      refuseIf (maxAttempts ≤ pending.attempts)
        (.tooMany "Too many incorrect attempts. Request a new code." none)
      if pending.codeHash = cfg.digest phone code then
        redis (.delete [.registration phone, .registrationSends phone])
      else do
        let later ← dateNow
        redis (.set (.registration phone) (.pending { pending with attempts := pending.attempts + 1 })
          (pendingTtl pending later))
        .throw (.badRequest "Invalid verification code.")

/-- The parent company's account, for one of its people's numbers. -/
def parentCompanyFor (phone : String) : Auth (Option User) := do
  let login ← ask (.isParentLogin phone)
  if login = false then pure none
  else do
    let parent ← ask .activeParent
    match parent with
    | some id => ask (.findById id)
    | none => pure none

/-- The account the signup's number has, unless the signup names one. -/
def existingAccount (signup : PendingSignup) : Auth (Option User) :=
  match signup.userId with
  | some _ => pure none
  | none => ask (.findByPhone signup.phone)

/-- The account with its new type. -/
def typedAccount (signup : PendingSignup) (accountType : AccountType) (existing : Option User) :
    Auth User :=
  match signup.userId.or (existing.map User.id) with
  | some id => ask (.assignRole id accountType)
  | none => ask (.createUser signup.phone accountType)

/-- The account of a verified number gets its type, or is made with it. -/
def createAccount (signup : PendingSignup) (accountType : AccountType) : Auth User := do
  let existing ← existingAccount signup
  let user ← typedAccount signup accountType existing
  ask (.markInvitesUsed (some signup.phone))
  pure user

/-- What a sign-in comes to: tokens, or a token to sign up with. -/
inductive SignedIn where
  | tokens (pair : TokenPair)
  | registrationRequired (registrationToken : ℕ) (accountTypes : List AccountType)
  deriving DecidableEq

/-- A number without an account, or without a role, signs up. -/
def signUp (phone : String) (full : Option User) : Auth SignedIn := do
  let signup : PendingSignup := ⟨phone, full.map User.id, none⟩
  let invitedAs ← ask (.invitedAccountTypes phone)
  match invitedAs with
  | [accountType] => do
      let user ← createAccount signup accountType
      .tokens <$> signIn cfg user false
  | _ => do
      let signup := if invitedAs = [] then signup else { signup with accountTypes := some invitedAs }
      let registrationToken ← random
      redis (.set (.registrationToken registrationToken) (.signup signup) signupTtlSeconds)
      pure (.registrationRequired registrationToken (signup.accountTypes.getD selfServiceAccountTypes))

/-- The account with its roles. -/
def fullAccount : Option User → Auth (Option User)
  | some user => ask (.findById user.id)
  | none => pure none

/-- The number has proved itself: it is signed in, or signs up. -/
def enter (phone : String) : Auth SignedIn := do
  let parent ← parentCompanyFor phone
  match parent with
  | some parent => .tokens <$> signIn cfg parent false
  | none => do
      let user ← ask (.findByPhone phone)
      refuseIf (user.any fun user => !user.isActive) (.unauthorized "This account is inactive.")
      let full ← fullAccount user
      match full.filter fun user => user.roles ≠ [] with
      | some full => do
          let tokens ← signIn cfg full false
          ask (.markInvitesUsed full.mobile)
          pure (.tokens tokens)
      | none => signUp cfg phone full

/-- With SMS codes on, the number gives its code. -/
def proveNumber (phone code : String) : Auth Unit :=
  if cfg.smsOtpEnabled then checkCode cfg phone code else pure ()

def verifyOtp (phone code : String) : Auth SignedIn :=
  withLock phone do
    proveNumber cfg phone code
    enter cfg phone

def completeRegistration (registrationToken : ℕ) (accountType : AccountType) : Auth TokenPair := do
  refuseIf (accountType ∉ selfServiceAccountTypes) (.badRequest "Choose a driver or company account.")
  let raw ← redis (.take (.registrationToken registrationToken))
  let signup ← orThrow
    (.unauthorized "Registration has expired; verify your phone number again.") (signupOf raw)
  refuseIf (signup.accountTypes.any fun types => accountType ∉ types)
    (.badRequest
      "این شماره با لینک دعوت آمده است؛ همان نوع حسابی را انتخاب کنید که دعوت شده است.")
  withLock signup.phone do
    let user ← createAccount signup accountType
    signIn cfg user true

end Service

end TransportBackend.RegistrationService
