import TransportBackend.MonitoredProgram
import TransportBackend.RegistrationFrame

/-!
# Sign-ins side by side

Any number of calls of the sign-in services in progress at once, each Redis command and each question
one atomic step, while time passes and keys that are past their deadline go.

* `authMachine`: the runs, of the calls that may start;
* `authStep_cases`: what a step does to the store.
-/

namespace TransportBackend.SignInRun

open TransportBackend.AtomicProgram
open TransportBackend.InterleavedRun
open TransportBackend.RedisStore
open TransportBackend.RegistrationStore
open TransportBackend.RegistrationService
open TransportBackend.SubscriptionStore (AccountType)

/-! ### Calls -/

inductive AuthCall where
  | signIn (user : User) (quiet : Bool)
  | refresh (token : ℕ)
  | revoke (token : ℕ)
  | adminSignIn (username password : String)
  | requestOtp (phone : String)
  | verifyOtp (phone code : String)
  | completeRegistration (registrationToken : ℕ) (accountType : AccountType)

/-- The tokens are handed out. -/
def handOut (tokens : TokenPair) : Auth Unit := Prog.perform (AuthCmd.answer tokens)

def handOutIfAny : SignedIn → Auth Unit
  | .tokens pair => handOut pair
  | .registrationRequired _ _ => pure ()

def authProgram (cfg : Setup) : AuthCall → Auth Unit
  | .signIn user quiet => signIn cfg user quiet >>= handOut
  | .refresh token => refresh cfg token >>= handOut
  | .revoke token => revoke token
  | .adminSignIn username password => adminSignIn cfg username password >>= handOut
  | .requestOtp phone => requestOtp cfg phone
  | .verifyOtp phone code => verifyOtp cfg phone code >>= handOutIfAny
  | .completeRegistration token accountType => completeRegistration cfg token accountType >>= handOut

/-! ### Runs -/

/-- What happens by itself. -/
inductive Passing where
  | time (milliseconds : ℕ)
  | expiry (key : AuthKey)

/-- The clock of Redis goes on, or a key past its deadline goes. -/
def pass : Passing → Store → Option Store
  | .time milliseconds, s =>
      some { s with redis := { s.redis with clock := s.redis.clock + milliseconds } }
  | .expiry key, s => (evict s.redis key).map fun redis => { s with redis := redis }

/-- The runs of the calls that `starts` lets start. -/
def authMachine (cfg : Setup) (starts : AuthCall → Bool) : Machine Resp AuthError Store where
  Choice := Answers
  Outside := Passing
  Call := AuthCall
  exec := exec
  outside := pass
  begin call s := if starts call then some (authProgram cfg call, s) else none

variable {cfg : Setup} {starts : AuthCall → Bool} {b c : Conf Resp AuthError Store} {e : Event Resp}

/-- **What a step does**: time passes or a key goes, a call starts, or a command is executed. -/
theorem authStep_cases {l : (authMachine cfg starts).Label}
    (hs : (authMachine cfg starts).step b l = some (e, c)) :
    (∃ o, pass o b.store = some c.store ∧ e = .outside ∧ c.pool = b.pool) ∨
      (∃ call, starts call = true ∧ c.store = b.store ∧ e = .start b.pool.length ∧
        c.pool = b.pool ++ [authProgram cfg call]) ∨
      ∃ pid w cmd k r, b.pool[pid]? = some (.call cmd k) ∧ exec w cmd b.store = some (r, c.store) ∧
        e = .act pid cmd r ∧ c.pool = b.pool.set pid (k r) := by
  cases l with
  | outside o =>
      obtain ⟨s, ho, rfl, rfl⟩ := Machine.step_outside hs
      exact .inl ⟨o, ho, rfl, rfl⟩
  | start call =>
      obtain ⟨p, s, hbegin, rfl, rfl⟩ := Machine.step_start hs
      change (if starts call = true then some (authProgram cfg call, b.store) else none) = _ at hbegin
      split at hbegin
      · rename_i hstarts
        obtain ⟨rfl, rfl⟩ := Prod.mk.inj (Option.some.inj hbegin)
        exact .inr (.inl ⟨call, hstarts, rfl, rfl, rfl⟩)
      · cases hbegin
  | act pid w =>
      obtain ⟨cmd, k, r, s, hcall, hexec, rfl, rfl⟩ := Machine.step_act hs
      exact .inr (.inr ⟨pid, w, cmd, k, r, hcall, hexec, rfl, rfl⟩)

theorem exec_some {w : Answers} {cmd : AuthCmd} {r : Resp cmd} {s s' : Store}
    (h : exec w cmd s = some (r, s')) :
    possible w cmd s = true ∧ r = (effect w cmd s).1 ∧ s' = (effect w cmd s).2 := by
  unfold exec at h
  split at h
  · rename_i hpossible
    obtain ⟨rfl, rfl⟩ := Prod.mk.inj (Option.some.inj h)
    exact ⟨hpossible, rfl, rfl⟩
  · cases h

/-- What passes by itself draws nothing and leaves nothing new under a key. -/
theorem pass_kept {o : Passing} {s s' : Store} (h : pass o s = some s') :
    s'.drawn = s.drawn ∧ ∀ k v, s'.redis.value k = some v → s.redis.value k = some v := by
  cases o with
  | time milliseconds =>
      obtain rfl := Option.some.inj h
      exact ⟨rfl, fun _ _ hv => hv⟩
  | expiry key =>
      obtain ⟨redis, hevict, rfl⟩ := Option.map_eq_some_iff.mp h
      exact ⟨rfl, fun k _ hv => value_evict hevict k hv⟩

end TransportBackend.SignInRun
