import TransportBackend.SignInRun

/-!
# What a call may do to a number's code

Whoever holds the lock of a number may read, send, count and check its code; nobody else touches it.
`Phase` says how far the holder has come, and `Deed` what it may do next.

* `phaseMonitor` — the phases of a call and the deeds of each;
* `accepts_authProgram` — **every call keeps to them**, whatever number it is for.
-/

namespace TransportBackend.SmsMonitor

open TransportBackend.AtomicProgram
open TransportBackend.AtomicProgram.Prog
open TransportBackend.InterleavedRun
open TransportBackend.MonitoredProgram
open TransportBackend.RedisStore
open TransportBackend.RegistrationStore
open TransportBackend.RegistrationService
open TransportBackend.RegistrationFrame
open TransportBackend.SignInRun

variable {cfg : Setup} {p : String}

/-! ### The phases -/

/-- How far the holder of the number's lock has come; a call without the lock is idle. -/
inductive Phase where
  | idle
  | held
  | may
  | issued
  | counted
  | read (pending : PendingOtp)
  | compared (pending : PendingOtp) (time : ℕ)
  | wrong (pending : PendingOtp)
  deriving DecidableEq

/-- The keys that belong to the holder of the lock. -/
def Own (p : String) : AuthKey → Prop
  | .registration phone => phone = p
  | .registrationSends phone => phone = p
  | .registrationLock phone => phone = p
  | _ => False

/-- The attempts with one more. -/
def missed (pending : PendingOtp) : PendingOtp := { pending with attempts := pending.attempts + 1 }

/-- The keys a command names. -/
def namedBy : AuthCmd → List AuthKey
  | .redis c => named c
  | _ => []

/-- A phase in which the clock is read for nothing of the code. -/
def Phase.steady : Phase → Prop
  | .read _ => False
  | .compared _ _ => False
  | _ => True

/-- What a call may do in a phase. -/
inductive Deed (p : String) : Phase → AuthCmd → Prop where
  | lock (owner : AuthValue) : Deed p .idle (.redis (.setIfAbsent (.registrationLock p) owner lockSeconds))
  | unlock {q : Phase} (owner : AuthValue) (hq : q = .held ∨ q = .may) :
      Deed p q (.redis (.deleteIfValue (.registrationLock p) owner))
  | readSends : Deed p .held (.redis (.get (.registrationSends p)))
  | left : Deed p .held (.redis (.ttl (.registrationSends p)))
  | issue (pending : PendingOtp) (hnew : pending.attempts = 0) :
      Deed p .may (.redis (.set (.registration p) (.pending pending) otpTtlSeconds))
  | count : Deed p .issued (.redis (.incr (.registrationSends p)))
  | renew {q : Phase} (hq : q = .held ∨ q = .counted) :
      Deed p q (.redis (.expire (.registrationSends p) sendsBlockSeconds))
  | discard : Deed p .may (.redis (.delete [.registration p, .registrationCooldown p]))
  | read : Deed p .held (.redis (.get (.registration p)))
  | look (pending : PendingOtp) : Deed p (.read pending) .now
  | miss (pending : PendingOtp) (time : ℕ) : Deed p (.compared pending time) .now
  | resave (pending : PendingOtp) (ttlSeconds : ℕ) :
      Deed p (.wrong pending) (.redis (.set (.registration p) (.pending (missed pending)) ttlSeconds))
  | accept (pending : PendingOtp) (time : ℕ) :
      Deed p (.compared pending time) (.redis (.delete [.registration p, .registrationSends p]))
  | other {q : Phase} {cmd : AuthCmd} (hkeys : ∀ k ∈ namedBy cmd, ¬ Own p k)
      (hnow : cmd = .now → q.steady) : Deed p q cmd

/-- The code is there: it is live, with tries left, or it is not to be compared. -/
def looked (pending : PendingOtp) (time : ℕ) : Phase :=
  if time < pending.expiresAt ∧ pending.attempts < maxAttempts then .compared pending time else .held

/-- What the code's key was read as. -/
def found : Option PendingOtp → Phase
  | some pending => .read pending
  | none => .held

def phaseNext (p : String) (q : Phase) : (cmd : AuthCmd) → Resp cmd → Phase
  | .redis (.setIfAbsent (.registrationLock phone) _ _), r => if phone = p ∧ r = true then .held else q
  | .redis (.deleteIfValue (.registrationLock phone) _), _ => if phone = p then .idle else q
  | .redis (.get (.registrationSends phone)), r => if phone = p ∧ countOf r < maxSends then .may else q
  | .redis (.get (.registration phone)), r => if phone = p then found (pendingOf r) else q
  | .redis (.set (.registration phone) (.pending pending) _), _ =>
      if phone = p then if pending.attempts = 0 then .issued else .held else q
  | .redis (.incr (.registrationSends phone)), _ => if phone = p then .counted else q
  | .redis (.expire (.registrationSends phone) _), _ => if phone = p then .held else q
  | .redis (.delete ks), _ => if .registration p ∈ ks then .held else q
  | .now, time =>
      match q with
      | .read pending => looked pending time
      | .compared pending _ => .wrong pending
      | _ => q
  | _, _ => q

def phaseMonitor (p : String) : Monitor Resp Phase where
  allowed := Deed p
  answers _ _ _ := True
  next := phaseNext p

/-- Whatever else a call does leaves its phase. -/
theorem phaseNext_other {q : Phase} {cmd : AuthCmd} (hkeys : ∀ k ∈ namedBy cmd, ¬ Own p k)
    (hnow : cmd = .now → q.steady) (r : Resp cmd) : phaseNext p q cmd r = q := by
  cases cmd with
  | redis c =>
      cases c with
      | get k =>
          have hk : ¬ Own p k := hkeys k List.mem_cons_self
          cases k <;> first | rfl | exact if_neg hk | exact if_neg fun h => hk h.1
      | set k v ttlSeconds =>
          have hk : ¬ Own p k := hkeys k List.mem_cons_self
          cases k with
          | registration phone => cases v <;> first | rfl | exact if_neg hk
          | _ => rfl
      | setIfAbsent k v ttlSeconds =>
          have hk : ¬ Own p k := hkeys k List.mem_cons_self
          cases k <;> first | rfl | exact if_neg fun h => hk h.1
      | incr k =>
          have hk : ¬ Own p k := hkeys k List.mem_cons_self
          cases k <;> first | rfl | exact if_neg hk
      | expire k ttlSeconds =>
          have hk : ¬ Own p k := hkeys k List.mem_cons_self
          cases k <;> first | rfl | exact if_neg hk
      | delete ks => exact if_neg fun h => hkeys (.registration p) h rfl
      | deleteIfValue k v =>
          have hk : ¬ Own p k := hkeys k List.mem_cons_self
          cases k <;> first | rfl | exact if_neg hk
      | ttl k => rfl
      | take k => rfl
  | now =>
      have hq := hnow rfl
      cases q <;> first | rfl | exact hq.elim
  | _ => rfl

/-! ### Parts that leave the code alone -/

section Accepts

variable {α β : Type}

/-- A part of a call that leaves its phase. -/
abbrev Apart (p : String) (m : Auth α) (q : Phase) : Prop :=
  Accepts (phaseMonitor p) m q fun _ q' => q' = q

theorem apart_of_issues {m : Auth α} {q : Phase} (hq : q.steady)
    (h : m.Issues (Touches fun k => ¬ Own p k)) : Apart p m q := by
  induction m with
  | ret a => exact rfl
  | throw e => exact rfl
  | call cmd k ih =>
      have hkeys : ∀ j ∈ namedBy cmd, ¬ Own p j := by
        intro j hj
        cases cmd with
        | redis c => exact h.1 j hj
        | _ => cases hj
      refine ⟨.other hkeys fun _ => hq, fun r _ => ?_⟩
      show Accepts (phaseMonitor p) (k r) (phaseNext p q cmd r) _
      rw [phaseNext_other hkeys fun _ => hq]
      exact ih r (h.2 r trivial)

theorem apart_bind {m : Auth α} {f : α → Auth β} {q : Phase} (hm : Apart p m q)
    (hf : ∀ a, Apart p (f a) q) : Apart p (m >>= f) q := by
  rw [Apart, accepts_bind]
  apply accepts_mono hm
  rintro out q' rfl
  cases out with
  | ok a => exact hf a
  | error e => rfl

theorem apart_handOut (tokens : TokenPair) : Apart p (handOut tokens) .idle := by
  have hkeys : ∀ k ∈ namedBy (.answer tokens), ¬ Own p k := fun k hk => by cases hk
  exact ⟨.other hkeys fun h => (by cases h), fun _ _ => rfl⟩

theorem entryKey_not_own (k : AuthKey) (h : EntryKey k) : ¬ Own p k := by
  intro hk
  cases k <;> first | exact h | exact hk

theorem sessionKey_not_own (k : AuthKey) (h : SessionKey k) : ¬ Own p k :=
  entryKey_not_own k (sessionKey_entryKey k h)

theorem codeKey_not_own {phone : String} (hphone : phone ≠ p) (k : AuthKey) (h : CodeKey phone k) :
    ¬ Own p k := by
  intro hk
  cases k <;> first | exact h | exact hk | exact hphone (h.symm.trans hk)

/-! ### The holder of the lock -/

/-- The lock may be given back. -/
def Closing (q : Phase) : Prop := q = .held ∨ q = .may

/-- An operation of the holder, to where the lock may be given back. -/
abbrev Closes (p : String) (m : Auth α) (q : Phase) : Prop :=
  Accepts (phaseMonitor p) m q fun _ q' => Closing q'

/-- **The lock.**  A call takes it, does its operation and gives it back. -/
theorem accepts_withLock {operation : Auth α} (h : Closes p operation .held) :
    Apart p (withLock p operation) .idle := by
  refine apart_bind (apart_of_issues trivial issues_random) fun owner => ?_
  refine ⟨.lock _, fun taken _ => ?_⟩
  show Accepts (phaseMonitor p) (refuseIf (taken = false) _ >>= _)
    (if p = p ∧ taken = true then Phase.held else .idle) _
  cases taken with
  | false =>
      rw [if_neg fun h => Bool.false_ne_true h.2]
      exact rfl
  | true =>
      rw [if_pos ⟨rfl, rfl⟩]
      show Accepts (phaseMonitor p) (attempt operation >>= _) .held _
      rw [accepts_bind, accepts_attempt]
      apply accepts_mono h
      intro out q hq
      refine ⟨.unlock _ hq, fun _ _ => ?_⟩
      show Accepts (phaseMonitor p) _ (if p = p then Phase.idle else q) _
      rw [if_pos rfl]
      cases out with
      | ok a => exact rfl
      | error e => exact rfl

/-- A code is kept and counted. -/
theorem accepts_issueCode :
    Accepts (phaseMonitor p) (issueCode cfg p) .may
      (outcome (fun _ q => q = .held) fun _ q => q = .may) := by
  show Accepts (phaseMonitor p) (codeFor cfg p >>= _) .may _
  rw [accepts_bind]
  apply accepts_mono (apart_of_issues (p := p) (q := .may) trivial (issues_codeFor p))
  rintro out q rfl
  cases out with
  | error e => exact rfl
  | ok code =>
      have hkeys : ∀ k ∈ namedBy .now, ¬ Own p k := fun k hk => by cases hk
      refine ⟨.other hkeys fun _ => trivial, fun now _ => ⟨.issue _ rfl, fun _ _ => ?_⟩⟩
      show Accepts (phaseMonitor p) (increment (.registrationSends p) sendsBlockSeconds >>= _)
        (if p = p then Phase.issued else .may) _
      rw [if_pos rfl]
      refine ⟨.count, fun count _ => ?_⟩
      show Accepts (phaseMonitor p) ((if count = 1 then _ else _) >>= _)
        (if p = p then Phase.counted else .issued) _
      rw [if_pos rfl]
      have hrenew : ∀ q : Phase, q = .held ∨ q = .counted →
          Accepts (phaseMonitor p)
            (redis (.expire (.registrationSends p) sendsBlockSeconds) >>= fun _ => pure ()) q
              (outcome (fun _ q => q = .held) fun _ q => q = .may) :=
        fun q hq => ⟨.renew hq, fun _ _ => if_pos rfl⟩
      split
      · refine ⟨.renew (.inr rfl), fun _ _ => hrenew _ (.inl (if_pos rfl))⟩
      · exact hrenew _ (.inr rfl)

/-- A code is sent, unless there were too many. -/
theorem closes_sendCode : Closes p (sendCode cfg p) .held := by
  refine ⟨.readSends, fun sends _ => ?_⟩
  show Accepts (phaseMonitor p) (if maxSends ≤ countOf sends then _ else _)
    (if p = p ∧ countOf sends < maxSends then Phase.may else .held) _
  split
  · rename_i hmany
    rw [if_neg fun h => absurd h.2 (not_lt.mpr hmany)]
    exact ⟨.left, fun _ _ => .inl rfl⟩
  · rename_i hfew
    rw [if_pos ⟨rfl, not_le.mp hfew⟩]
    have hkeys : ∀ k ∈ namedBy (.redis (.setIfAbsent (.registrationCooldown p) .one otpCooldownSeconds)),
        ¬ Own p k := by
      intro k hk
      obtain rfl := List.mem_singleton.mp hk
      exact id
    refine ⟨.other hkeys fun h => (by cases h), fun fresh _ => ?_⟩
    show Accepts (phaseMonitor p) (refuseIf (fresh = false) _ >>= _) .may _
    rw [accepts_bind, accepts_refuseIf]
    refine ⟨fun _ => .inr rfl, fun _ => ?_⟩
    show Accepts (phaseMonitor p) (attempt (issueCode cfg p) >>= _) .may _
    rw [accepts_bind, accepts_attempt]
    apply accepts_mono accepts_issueCode
    intro out q hq
    cases out with
    | ok _ => exact .inl hq
    | error e =>
        obtain rfl : q = .may := hq
        exact ⟨.discard, fun _ _ => .inl (if_pos List.mem_cons_self)⟩

theorem accepts_requestOtp (phone : String) : Apart p (requestOtp cfg phone) .idle := by
  by_cases hphone : phone = p
  · subst hphone
    unfold requestOtp
    split
    · exact accepts_withLock closes_sendCode
    · exact rfl
  · exact apart_of_issues trivial (issues_requestOtp hphone (codeKey_not_own hphone))

/-- A code is compared only while it is live and has tries left, and a wrong one counts. -/
theorem accepts_checkCode (code : String) :
    Accepts (phaseMonitor p) (checkCode cfg p code) .held fun _ q => q = .held := by
  refine ⟨.read, fun raw _ => ?_⟩
  show Accepts (phaseMonitor p) _ (if p = p then found (pendingOf raw) else .held) _
  dsimp only [Prog.bind]
  rw [if_pos rfl]
  cases pendingOf raw with
  | none => exact rfl
  | some pending =>
      refine ⟨.look pending, fun now _ => ?_⟩
      show Accepts (phaseMonitor p) (refuseIf (pending.expiresAt ≤ now) _ >>= _) (looked pending now) _
      unfold looked
      rw [accepts_bind, accepts_refuseIf]
      refine ⟨fun hexpired => if_neg fun h => absurd h.1 (not_lt.mpr hexpired), fun hlive => ?_⟩
      show Accepts (phaseMonitor p) (refuseIf (maxAttempts ≤ pending.attempts) _ >>= _) _ _
      rw [accepts_bind, accepts_refuseIf]
      refine ⟨fun hmany => if_neg fun h => absurd h.2 (not_lt.mpr hmany), fun hfew => ?_⟩
      have hlooked : now < pending.expiresAt ∧ pending.attempts < maxAttempts :=
        ⟨not_le.mp hlive, not_le.mp hfew⟩
      rw [if_pos hlooked]
      show Accepts (phaseMonitor p) (if pending.codeHash = cfg.digest p code then _ else _) _ _
      split
      · exact ⟨.accept pending now, fun _ _ => if_pos List.mem_cons_self⟩
      · refine ⟨.miss pending now, fun later _ => ⟨.resave pending _, fun _ _ => ?_⟩⟩
        show (if p = p then if pending.attempts + 1 = 0 then Phase.issued else .held else _) = .held
        rw [if_pos rfl, if_neg (Nat.succ_ne_zero _)]

theorem accepts_proveNumber (code : String) :
    Accepts (phaseMonitor p) (proveNumber cfg p code) .held fun _ q => q = .held := by
  unfold proveNumber
  split
  · exact accepts_checkCode code
  · exact rfl

theorem accepts_verifyOtp (phone code : String) : Apart p (verifyOtp cfg phone code) .idle := by
  by_cases hphone : phone = p
  · subst hphone
    apply accepts_withLock
    rw [Closes, accepts_bind]
    apply accepts_mono (accepts_proveNumber code)
    rintro out q rfl
    cases out with
    | error e => exact .inl rfl
    | ok _ =>
        have henter : Apart phone (enter cfg phone) .held :=
          apart_of_issues trivial ((issues_enter phone).mono (Touches.mono entryKey_not_own))
        exact accepts_mono henter fun _ _ hq => .inl hq
  · exact apart_of_issues trivial
      (issues_verifyOtp code hphone (codeKey_not_own hphone) entryKey_not_own)

theorem accepts_completeRegistration (token : ℕ) (accountType : SubscriptionStore.AccountType) :
    Apart p (completeRegistration cfg token accountType) .idle := by
  refine apart_bind (apart_of_issues trivial (issues_refuseIf _ _)) fun _ => ?_
  have htake : Apart p (redis (.take (.registrationToken token))) .idle :=
    apart_of_issues trivial (issues_one rfl id)
  refine apart_bind htake fun raw => ?_
  refine apart_bind (apart_of_issues trivial (issues_orThrow _ _)) fun signup => ?_
  refine apart_bind (apart_of_issues trivial (issues_refuseIf _ _)) fun _ => ?_
  have hoperation : (createAccount signup accountType >>= fun user => signIn cfg user true).Issues
      (Touches fun k => ¬ Own p k) :=
    (issues_createAccount _ _).bind fun user =>
      (issues_signIn_entry user true).mono (Touches.mono entryKey_not_own)
  by_cases hphone : signup.phone = p
  · rw [hphone]
    apply accepts_withLock
    exact accepts_mono (apart_of_issues trivial hoperation) fun _ _ hq => .inl hq
  · exact apart_of_issues trivial (issues_withLock hphone hoperation)

/-- **Every call keeps to the monitor**, and has no lock at its end. -/
theorem accepts_authProgram (call : AuthCall) : Apart p (authProgram cfg call) .idle := by
  cases call with
  | signIn user quiet =>
      exact apart_bind (apart_of_issues trivial
        ((issues_signIn user quiet).mono (Touches.mono sessionKey_not_own))) apart_handOut
  | refresh token =>
      exact apart_bind (apart_of_issues trivial
        ((issues_refresh token).mono (Touches.mono sessionKey_not_own))) apart_handOut
  | revoke token =>
      exact apart_of_issues trivial ((issues_revoke token).mono (Touches.mono sessionKey_not_own))
  | adminSignIn username password =>
      refine apart_bind (apart_of_issues trivial
        ((issues_adminSignIn username password).mono (Touches.mono ?_))) apart_handOut
      rintro k (hk | rfl)
      · exact sessionKey_not_own k hk
      · exact id
  | requestOtp phone => exact accepts_requestOtp phone
  | verifyOtp phone code =>
      refine apart_bind (accepts_verifyOtp phone code) fun out => ?_
      cases out with
      | tokens pair => exact apart_handOut pair
      | registrationRequired token types => exact rfl
  | completeRegistration token accountType =>
      exact apart_bind (accepts_completeRegistration token accountType) apart_handOut

end Accepts

end TransportBackend.SmsMonitor
