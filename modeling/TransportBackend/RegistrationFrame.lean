import TransportBackend.RegistrationService

/-!
# Which keys a sign-in touches

For every method of the sign-in services, the keys of Redis its commands read or write, whatever they
are answered.  A method that does not touch a key can neither break nor learn what is kept there, so
the rest of the development only looks at the methods that do.
-/

namespace TransportBackend.RegistrationFrame

open TransportBackend.AtomicProgram
open TransportBackend.AtomicProgram.Prog
open TransportBackend.RedisStore
open TransportBackend.RegistrationStore
open TransportBackend.RegistrationService
open TransportBackend.SubscriptionStore (AccountType)

/-! ### Touching -/

/-- The keys a Redis command names. -/
def named : RedisCmd AuthKey AuthValue → List AuthKey
  | .get k => [k]
  | .ttl k => [k]
  | c => c.writes

/-- The keys a command names; handing tokens out is no command of a method. -/
def Touches (P : AuthKey → Prop) : AuthCmd → Prop
  | .redis c => ∀ k ∈ named c, P k
  | .answer _ => False
  | _ => True

theorem Touches.mono {P P' : AuthKey → Prop} (hP : ∀ k, P k → P' k) (c : AuthCmd)
    (h : Touches P c) : Touches P' c := by
  cases c with
  | redis c => exact fun k hk => hP k (h k hk)
  | answer tokens => exact h
  | _ => trivial

variable {P : AuthKey → Prop} {α β : Type}

theorem issues_redis {c : RedisCmd AuthKey AuthValue} (h : ∀ k ∈ named c, P k) :
    (redis c).Issues (Touches P) := issues_perform h

theorem issues_one {c : RedisCmd AuthKey AuthValue} {k : AuthKey} (hc : named c = [k]) (hk : P k) :
    (redis c).Issues (Touches P) := by
  apply issues_redis
  intro j hj
  rw [hc] at hj
  rwa [List.mem_singleton.mp hj]

theorem issues_bind_one {c : RedisCmd AuthKey AuthValue} {k : AuthKey} {f : RedisResp c → Auth α}
    (hc : named c = [k]) (hk : P k) (hf : ∀ r, (f r).Issues (Touches P)) :
    (redis c >>= f).Issues (Touches P) := (issues_one hc hk).bind hf

theorem issues_random : random.Issues (Touches P) := issues_perform trivial

theorem issues_dateNow : dateNow.Issues (Touches P) := issues_perform trivial

theorem issues_ask (c : OuterCmd) : (ask c).Issues (Touches P) := by
  refine Issues.bind (issues_perform trivial) fun r => ?_
  cases r with
  | ok a => exact issues_pure a
  | error e => exact issues_throw e

/-! ### Sessions and tokens -/

/-- The keys of sessions and refresh tokens. -/
def SessionKey : AuthKey → Prop
  | .activeSession _ => True
  | .refreshToken _ => True
  | _ => False

variable {cfg : Setup}

theorem issues_start (userId : ℕ) (multi : Bool) : (start userId multi).Issues (Touches SessionKey) := by
  refine issues_random.bind fun sid => ?_
  cases multi with
  | true => exact issues_pure sid
  | false => exact (issues_one rfl trivial).bind fun _ => issues_pure sid

theorem issues_resume (userId : ℕ) (multi : Bool) (sid : Option ℕ) :
    (resume userId multi sid).Issues (Touches SessionKey) := by
  cases multi with
  | true =>
      cases sid with
      | none => exact issues_random
      | some sid => exact issues_pure sid
  | false =>
      refine (issues_one rfl trivial).bind fun active => ?_
      cases sid with
      | none => exact (issues_refuseIf _ _).bind fun _ => issues_start userId false
      | some sid =>
          exact (issues_refuseIf _ _).bind fun _ =>
            (issues_one rfl trivial).bind fun _ => issues_pure sid

theorem issues_endSession (userId : ℕ) (sid : Option ℕ) :
    (endSession userId sid).Issues (Touches SessionKey) := by
  cases sid with
  | none => exact issues_pure ()
  | some sid => exact issues_one rfl trivial

theorem issues_approveReviewer (user : User) : (approveReviewer cfg user).Issues (Touches P) := by
  unfold approveReviewer
  split
  · exact issues_ask _
  · exact issues_pure ()

theorem issues_issueTokens (user : User) (sid : ℕ) :
    (issueTokens cfg user sid).Issues (Touches SessionKey) := by
  refine (issues_refuseIf _ _).bind fun _ => ?_
  refine (issues_approveReviewer user).bind fun _ => ?_
  refine issues_random.bind fun token => ?_
  exact (issues_one rfl trivial).bind fun _ => issues_pure _

theorem issues_signIn (user : User) (quiet : Bool) :
    (signIn cfg user quiet).Issues (Touches SessionKey) := by
  refine (issues_start _ _).bind fun sid => ?_
  refine (issues_issueTokens user sid).bind fun tokens => ?_
  exact (issues_ask _).bind fun _ => issues_pure tokens

theorem issues_revoke (token : ℕ) : (revoke token).Issues (Touches SessionKey) := by
  refine (issues_one rfl trivial).bind fun value => ?_
  cases readRefresh value with
  | none => exact issues_pure ()
  | some held => exact issues_endSession held.1 held.2

theorem issues_refresh (token : ℕ) : (refresh cfg token).Issues (Touches SessionKey) := by
  refine (issues_one rfl trivial).bind fun value => ?_
  refine (issues_orThrow _ _).bind fun held => ?_
  refine (issues_ask _).bind fun found => ?_
  refine (issues_orThrow _ _).bind fun user => ?_
  refine (issues_resume _ _ _).bind fun session => ?_
  exact (issues_ask _).bind fun _ => issues_issueTokens user session

/-! ### The admin's sign-in -/

theorem issues_increment {key : AuthKey} (h : P key) (ttlSeconds : ℕ) :
    (increment key ttlSeconds).Issues (Touches P) := by
  refine (issues_one rfl h).bind fun count => ?_
  split
  · exact (issues_one rfl h).bind fun _ => issues_pure count
  · exact issues_pure count

theorem issues_passwordValid (password : String) (row : Option AdminRow) :
    (passwordValid password row).Issues (Touches P) := by
  unfold passwordValid
  split
  · exact issues_ask _
  · exact issues_pure false

theorem issues_adminOf (valid : Bool) (row : Option AdminRow) :
    (adminOf valid row).Issues (Touches P) := by
  cases row with
  | none => exact issues_pure none
  | some row =>
      cases valid with
      | true => exact issues_ask _
      | false => exact issues_pure none

theorem issues_adminSignIn (username password : String) :
    (adminSignIn cfg username password).Issues
      (Touches fun k => SessionKey k ∨ k = .adminSignInFailures (cfg.lowered username)) := by
  refine (issues_one rfl (.inr rfl)).bind fun tries => ?_
  refine (issues_refuseIf _ _).bind fun _ => ?_
  refine (issues_ask _).bind fun row => ?_
  refine (issues_passwordValid _ _).bind fun valid => ?_
  refine (issues_adminOf _ _).bind fun found => ?_
  split
  · exact (issues_increment (.inr rfl) _).bind fun _ => issues_throw _
  · refine (issues_one rfl (.inr rfl)).bind fun _ => ?_
    exact (issues_signIn _ _).mono (Touches.mono fun _ => .inl)

/-! ### Codes -/

theorem issues_withLock {phone : String} {operation : Auth α} (hlock : P (.registrationLock phone))
    (h : operation.Issues (Touches P)) : (withLock phone operation).Issues (Touches P) := by
  refine issues_random.bind fun owner => ?_
  refine (issues_one rfl hlock).bind fun taken => ?_
  refine (issues_refuseIf _ _).bind fun _ => ?_
  refine (issues_attempt h).bind fun result => ?_
  refine (issues_one rfl hlock).bind fun _ => ?_
  cases result with
  | ok a => exact issues_pure a
  | error e => exact issues_throw e

/-- The keys of a number's codes. -/
def CodeKey (phone : String) : AuthKey → Prop
  | .registration p => p = phone
  | .registrationCooldown p => p = phone
  | .registrationSends p => p = phone
  | _ => False

theorem issues_codeFor (phone : String) : (codeFor cfg phone).Issues (Touches P) := by
  unfold codeFor
  split
  · exact issues_pure _
  · exact issues_ask _

theorem issues_issueCode (phone : String) :
    (issueCode cfg phone).Issues (Touches (CodeKey phone)) := by
  refine (issues_codeFor phone).bind fun code => ?_
  refine issues_dateNow.bind fun now => ?_
  refine issues_bind_one rfl rfl fun _ => ?_
  have hsends : CodeKey phone (.registrationSends phone) := rfl
  refine (issues_increment hsends _).bind fun _ => ?_
  exact issues_bind_one rfl rfl fun _ => issues_pure ()

theorem issues_sendCode (phone : String) : (sendCode cfg phone).Issues (Touches (CodeKey phone)) := by
  refine issues_bind_one rfl rfl fun sends => ?_
  split
  · exact issues_bind_one rfl rfl fun _ => issues_throw _
  · refine issues_bind_one rfl rfl fun fresh => ?_
    refine (issues_refuseIf _ _).bind fun _ => ?_
    refine (issues_attempt (issues_issueCode phone)).bind fun sent => ?_
    cases sent with
    | ok _ => exact issues_pure ()
    | error e =>
        refine Issues.bind (issues_redis ?_) fun _ => issues_throw e
        intro k hk
        rcases List.mem_pair.mp hk with rfl | rfl <;> exact rfl

theorem issues_checkCode (phone code : String) :
    (checkCode cfg phone code).Issues (Touches (CodeKey phone)) := by
  refine issues_bind_one rfl rfl fun raw => ?_
  split
  · exact issues_throw _
  · refine issues_dateNow.bind fun now => ?_
    refine (issues_refuseIf _ _).bind fun _ => ?_
    refine (issues_refuseIf _ _).bind fun _ => ?_
    split
    · apply issues_redis
      intro k hk
      rcases List.mem_pair.mp hk with rfl | rfl <;> exact rfl
    · refine issues_dateNow.bind fun later => ?_
      exact issues_bind_one rfl rfl fun _ => issues_throw _

/-! ### Coming in -/

theorem issues_parentCompanyFor (phone : String) : (parentCompanyFor phone).Issues (Touches P) := by
  refine (issues_ask _).bind fun login => ?_
  split
  · exact issues_pure none
  · refine (issues_ask _).bind fun parent => ?_
    cases parent with
    | some id => exact issues_ask _
    | none => exact issues_pure none

theorem issues_existingAccount (signup : PendingSignup) :
    (existingAccount signup).Issues (Touches P) := by
  unfold existingAccount
  split
  · exact issues_pure none
  · exact issues_ask _

theorem issues_typedAccount (signup : PendingSignup) (accountType : AccountType)
    (existing : Option User) : (typedAccount signup accountType existing).Issues (Touches P) := by
  unfold typedAccount
  split
  · exact issues_ask _
  · exact issues_ask _

theorem issues_createAccount (signup : PendingSignup) (accountType : AccountType) :
    (createAccount signup accountType).Issues (Touches P) := by
  refine (issues_existingAccount signup).bind fun existing => ?_
  refine (issues_typedAccount signup accountType existing).bind fun user => ?_
  exact (issues_ask _).bind fun _ => issues_pure user

theorem issues_fullAccount (user : Option User) : (fullAccount user).Issues (Touches P) := by
  cases user with
  | some user => exact issues_ask _
  | none => exact issues_pure none

/-- The keys of sessions, refresh tokens and sign-ups. -/
def EntryKey : AuthKey → Prop
  | .registrationToken _ => True
  | k => SessionKey k

theorem sessionKey_entryKey (k : AuthKey) (h : SessionKey k) : EntryKey k := by
  cases k <;> first | exact h | trivial

theorem issues_signIn_entry (user : User) (quiet : Bool) :
    (signIn cfg user quiet).Issues (Touches EntryKey) :=
  (issues_signIn user quiet).mono (Touches.mono sessionKey_entryKey)

theorem issues_signUp (phone : String) (full : Option User) :
    (signUp cfg phone full).Issues (Touches EntryKey) := by
  refine (issues_ask _).bind fun invitedAs => ?_
  split
  · refine (issues_createAccount _ _).bind fun user => ?_
    exact (issues_signIn_entry user false).map _
  · refine issues_random.bind fun token => ?_
    exact (issues_one rfl trivial).bind fun _ => issues_pure _

theorem issues_enter (phone : String) : (enter cfg phone).Issues (Touches EntryKey) := by
  refine (issues_parentCompanyFor phone).bind fun parent => ?_
  cases parent with
  | some parent => exact (issues_signIn_entry parent false).map _
  | none =>
      refine (issues_ask _).bind fun user => ?_
      refine (issues_refuseIf _ _).bind fun _ => ?_
      refine (issues_fullAccount user).bind fun full => ?_
      split
      · refine (issues_signIn_entry _ _).bind fun tokens => ?_
        exact (issues_ask _).bind fun _ => issues_pure _
      · exact issues_signUp phone full

/-! ### The methods of a number -/

theorem issues_requestOtp {phone : String} (hlock : P (.registrationLock phone))
    (hcode : ∀ k, CodeKey phone k → P k) : (requestOtp cfg phone).Issues (Touches P) := by
  unfold requestOtp
  split
  · exact issues_withLock hlock ((issues_sendCode phone).mono (Touches.mono hcode))
  · exact issues_pure ()

theorem issues_proveNumber {phone : String} (code : String) (hcode : ∀ k, CodeKey phone k → P k) :
    (proveNumber cfg phone code).Issues (Touches P) := by
  unfold proveNumber
  split
  · exact (issues_checkCode phone code).mono (Touches.mono hcode)
  · exact issues_pure ()

theorem issues_verifyOtp {phone : String} (code : String) (hlock : P (.registrationLock phone))
    (hcode : ∀ k, CodeKey phone k → P k) (hentry : ∀ k, EntryKey k → P k) :
    (verifyOtp cfg phone code).Issues (Touches P) := by
  refine issues_withLock hlock ((issues_proveNumber code hcode).bind fun _ => ?_)
  exact (issues_enter phone).mono (Touches.mono hentry)

theorem issues_completeRegistration (token : ℕ) (accountType : AccountType)
    (hlock : ∀ phone, P (.registrationLock phone)) (hentry : ∀ k, EntryKey k → P k) :
    (completeRegistration cfg token accountType).Issues (Touches P) := by
  refine (issues_refuseIf _ _).bind fun _ => ?_
  refine issues_bind_one rfl (hentry (.registrationToken token) trivial) fun raw => ?_
  refine (issues_orThrow _ _).bind fun signup => ?_
  refine (issues_refuseIf _ _).bind fun _ => issues_withLock (hlock signup.phone) ?_
  refine (issues_createAccount _ _).bind fun user => ?_
  exact (issues_signIn_entry user true).mono (Touches.mono hentry)

end TransportBackend.RegistrationFrame
