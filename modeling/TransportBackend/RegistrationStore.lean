import TransportBackend.AtomicProgram
import TransportBackend.InterleavedRun
import TransportBackend.RedisStore
import TransportBackend.SubscriptionStore

/-!
# Signing in: what Redis keeps and what is asked elsewhere

The short-lived facts of the sign-in services (services/auth) are keys of one Redis store (`AuthKey`,
`AuthValue`).  The JSON texts and numbers among the values are kept as what they are read back as.  The
rows of the database, the SMS provider, the password check and the publisher are asked by commands of
their own (`OuterCmd`), whose answers the environment gives (`Answers`): any answer, at any time, the
row of an id being that id's.

Session ids, tokens and lock owners are drawn at random; a value drawn was never drawn before.
-/

namespace TransportBackend.RegistrationStore

open TransportBackend.AtomicProgram
open TransportBackend.RedisStore
open TransportBackend.SubscriptionStore (AccountType)

/-! ### Rows -/

/-- `VerificationStatus` of an account. -/
inductive VerificationStatus where
  | pending
  | approved
  | rejected
  deriving DecidableEq

/-- What a sign-in reads of a row of `User`: `roles` are the names of its active roles. -/
structure User where
  id : ℕ
  mobile : Option String
  isParentCompany : Bool
  isActive : Bool
  verificationStatus : Option VerificationStatus
  roles : List String
  deriving DecidableEq

/-- What the admin's sign-in reads of a row of `User`. -/
structure AdminRow where
  id : ℕ
  passwordHash : Option String
  deriving DecidableEq

structure PendingOtp where
  codeHash : String
  expiresAt : ℕ
  attempts : ℕ
  deriving DecidableEq

/-- A number that gave its code and has no account, or no role yet. -/
structure PendingSignup where
  phone : String
  userId : Option ℕ
  accountTypes : Option (List AccountType)
  deriving DecidableEq

/-! ### Keys and values -/

inductive AuthKey where
  | registration (phone : String)
  | registrationToken (token : ℕ)
  | registrationLock (phone : String)
  | registrationCooldown (phone : String)
  | registrationSends (phone : String)
  | refreshToken (token : ℕ)
  | activeSession (userId : ℕ)
  | adminSignInFailures (username : String)
  deriving DecidableEq

inductive AuthValue where
  | one
  | count (n : ℕ)
  | owner (n : ℕ)
  | pending (p : PendingOtp)
  | signup (s : PendingSignup)
  | session (sid : ℕ)
  | refresh (userId : ℕ) (sid : Option ℕ)
  deriving DecidableEq

instance : Counter AuthValue where
  ofCount := .count
  toCount
    | .count n => n
    | _ => 0

/-- `Number(value ?? 0)`. -/
def countOf : Option AuthValue → ℕ
  | some (.count n) => n
  | _ => 0

def pendingOf : Option AuthValue → Option PendingOtp
  | some (.pending p) => some p
  | _ => none

def signupOf : Option AuthValue → Option PendingSignup
  | some (.signup s) => some s
  | _ => none

def sessionOf : Option AuthValue → Option ℕ
  | some (.session sid) => some sid
  | _ => none

/-- `readRefresh`: `userId:sid`, or the user id alone in a token from before sessions. -/
def readRefresh : Option AuthValue → Option (ℕ × Option ℕ)
  | some (.refresh userId sid) => some (userId, sid)
  | _ => none

/-! ### What is thrown -/

inductive AuthError where
  | badRequest (message : String)
  | conflict (message : String)
  | unauthorized (message : String)
  | tooMany (message : String) (retryAfter : Option ℤ)
  | unavailable
  deriving DecidableEq

/-! ### Asked elsewhere -/

/-- The questions to the database, the SMS provider, argon2 and the publisher. -/
inductive OuterCmd where
  | sendOtp (phone : String)
  | isParentLogin (phone : String)
  | activeParent
  | findById (id : ℕ)
  | findByPhone (phone : String)
  | invitedAccountTypes (phone : String)
  | assignRole (id : ℕ) (accountType : AccountType)
  | createUser (phone : String) (accountType : AccountType)
  | approveReviewer (id : ℕ)
  | adminRow (name : String)
  | verifyPassword (hash password : String)
  | markInvitesUsed (mobile : Option String)
  | publishSignedIn (userId sid : ℕ) (quiet : Bool)
  deriving DecidableEq

abbrev OuterResp : OuterCmd → Type
  | .sendOtp _ => String
  | .isParentLogin _ => Bool
  | .activeParent => Option ℕ
  | .findById _ => Option User
  | .findByPhone _ => Option User
  | .invitedAccountTypes _ => List AccountType
  | .assignRole _ _ => User
  | .createUser _ _ => User
  | .approveReviewer _ => Unit
  | .adminRow _ => Option AdminRow
  | .verifyPassword _ _ => Bool
  | .markInvitesUsed _ => Unit
  | .publishSignedIn _ _ _ => Unit

/-- The questions whose failure is swallowed where they are asked. -/
def neverFails : OuterCmd → Bool
  | .verifyPassword _ _ => true
  | .markInvitesUsed _ => true
  | .publishSignedIn _ _ _ => true
  | _ => false

/-- The row of an id is that id's. -/
def answersTo : (c : OuterCmd) → Except AuthError (OuterResp c) → Bool
  | .findById id, .ok (some user) => user.id = id
  | .assignRole id _, .ok user => user.id = id
  | c, .error _ => !neverFails c
  | _, .ok _ => true

/-! ### Commands -/

/-- The tokens a sign-in hands out: what the access token says, and the refresh token. -/
structure TokenPair where
  userId : ℕ
  sid : ℕ
  multi : Bool
  refreshToken : ℕ
  deriving DecidableEq

inductive AuthCmd where
  | redis (c : RedisCmd AuthKey AuthValue)
  | random
  | now
  | outer (c : OuterCmd)
  | answer (tokens : TokenPair)
  deriving DecidableEq

abbrev Resp : AuthCmd → Type
  | .redis c => RedisResp c
  | .random => ℕ
  | .now => ℕ
  | .outer c => Except AuthError (OuterResp c)
  | .answer _ => Unit

/-- Redis with its clock, and the random values drawn so far. -/
structure Store where
  redis : Redis AuthKey AuthValue
  drawn : List ℕ

/-- What the environment has ready for the next command: a random value, and an answer to each
question. -/
structure Answers where
  random : ℕ
  outer : (c : OuterCmd) → Except AuthError (OuterResp c)

/-- What a command answers and leaves. -/
def effect (w : Answers) : (c : AuthCmd) → Store → Resp c × Store
  | .redis c, s => ((redisExec c s.redis).1, { s with redis := (redisExec c s.redis).2 })
  | .random, s => (w.random, { s with drawn := w.random :: s.drawn })
  | .now, s => (s.redis.clock, s)
  | .outer c, s => (w.outer c, s)
  | .answer _, s => ((), s)

/-- A value drawn before is not drawn again, and the row of another id is not answered. -/
def possible (w : Answers) : AuthCmd → Store → Bool
  | .random, s => w.random ∉ s.drawn
  | .outer c, _ => answersTo c (w.outer c)
  | _, _ => true

def exec (w : Answers) (c : AuthCmd) (s : Store) : Option (Resp c × Store) :=
  if possible w c s then some (effect w c s) else none

/-- A method of the sign-in services. -/
abbrev Auth (α : Type) : Type := Prog Resp AuthError α

/-- One Redis command, awaited. -/
def redis (c : RedisCmd AuthKey AuthValue) : Auth (RedisResp c) :=
  Prog.perform (AuthCmd.redis c)

def random : Auth ℕ := Prog.perform AuthCmd.random

/-- `Date.now()`. -/
def dateNow : Auth ℕ := Prog.perform AuthCmd.now

/-- One question, awaited; what it throws is thrown. -/
def ask (c : OuterCmd) : Auth (OuterResp c) :=
  (Prog.perform (AuthCmd.outer c) : Auth (Except AuthError (OuterResp c))) >>= fun
    | .ok a => .ret a
    | .error e => .throw e

end TransportBackend.RegistrationStore
