import TransportBackend.SignInRun

/-!
# One session at a time

An account that is not the parent company, with any number of its sign-ins, refreshes and sign-outs
going on at once.

* `sessionMonitor` — what a call has in hand: the value it drew and has not used, the refresh token it
  took, and whether it found the token's session to be the current one;
* `Used` — a value that was drawn and that no call has left to use: it is never written as a session
  or a token again;
* `one_session` — **at most one session is current; one that stopped being current is never current
  again and none of its refresh tokens gets anything; a refresh token is exchanged at most once.**
-/

namespace TransportBackend.OneSession

open TransportBackend.AtomicProgram
open TransportBackend.AtomicProgram.Prog
open TransportBackend.InterleavedRun
open TransportBackend.MonitoredProgram
open TransportBackend.RedisStore
open TransportBackend.RegistrationStore
open TransportBackend.RegistrationService
open TransportBackend.RegistrationFrame
open TransportBackend.SignInRun

variable {u : ℕ} {cfg : Setup} {s s' s₀ : Store}

/-! ### What a call has in hand -/

/-- The drawn value it has not used, what the refresh token it took held, whether it then read that
session as the account's, and whether it has handed tokens out. -/
structure Stage where
  fresh : Option ℕ
  took : Option (Option (ℕ × Option ℕ))
  live : Bool
  done : Bool

def Stage.start : Stage := ⟨none, none, false, false⟩

def stageAllowed (u : ℕ) (q : Stage) : AuthCmd → Prop
  | .redis (.set (.activeSession _) v _) => ∃ sid, v = .session sid ∧ q.fresh = some sid
  | .redis (.set (.refreshToken token) _ _) => q.fresh = some token
  | .redis (.setIfAbsent k _ _) => ¬ SessionKey k
  | .redis (.incr k) => ¬ SessionKey k
  | .redis (.take (.refreshToken _)) => q.took = none ∧ q.done = false
  | .answer _ =>
      q.took ≠ some none ∧ ∀ sid, q.took = some (some (u, some sid)) → q.live = true
  | _ => True

def stageNext (u : ℕ) (q : Stage) : (c : AuthCmd) → Resp c → Stage
  | .random, r => { q with fresh := some r }
  | .redis (.set (.activeSession _) _ _), _ => { q with fresh := none }
  | .redis (.set (.refreshToken _) _ _), _ => { q with fresh := none }
  | .redis (.take (.refreshToken _)), r => { q with took := some (readRefresh r), live := false }
  | .redis (.get (.activeSession userId)), r =>
      { q with live := decide (userId = u ∧ q.took = some (some (u, sessionOf r))) }
  | .answer _, _ => { q with done := true }
  | _, _ => q

/-- The accounts an answer names. -/
def usersIn : (c : OuterCmd) → Except AuthError (OuterResp c) → List User
  | .findById _, .ok user => user.toList
  | .findByPhone _, .ok user => user.toList
  | .assignRole _ _, .ok user => [user]
  | .createUser _ _, .ok user => [user]
  | _, _ => []

/-- The account is not the parent company. -/
def Single (u : ℕ) (user : User) : Prop := user.id = u → user.isParentCompany = false

instance (u : ℕ) (user : User) : Decidable (Single u user) :=
  inferInstanceAs (Decidable (user.id = u → user.isParentCompany = false))

def stageAnswers (u : ℕ) (_ : Stage) : (c : AuthCmd) → Resp c → Prop
  | .outer c, r => answersTo c r = true ∧ ∀ user ∈ usersIn c r, Single u user
  | _, _ => True

def sessionMonitor (u : ℕ) : Monitor Resp Stage where
  allowed := stageAllowed u
  answers := stageAnswers u
  next := stageNext u

/-! ### Every call keeps to the monitor -/

section Accepts

variable {α β : Type}

/-- What a call has besides a value to use. -/
def Stage.rest (q : Stage) : Option (Option (ℕ × Option ℕ)) × Bool × Bool := (q.took, q.live, q.done)

/-- A part of a call that takes no refresh token and does not look at the session. -/
abbrev Aside (u : ℕ) (p : Auth α) : Prop := Keeps (sessionMonitor u) Stage.rest p

theorem aside_of_issues {p : Auth α} (h : p.Issues (Touches fun k => ¬ SessionKey k)) : Aside u p := by
  refine keeps_of_within ?_ h
  intro c hc q
  cases c with
  | redis c =>
      cases c with
      | get k =>
          have hk := hc k List.mem_cons_self
          cases k <;> first | exact absurd trivial hk | exact ⟨trivial, fun _ _ => rfl⟩
      | ttl k => exact ⟨trivial, fun _ _ => rfl⟩
      | set k v ttlSeconds =>
          have hk := hc k List.mem_cons_self
          cases k <;> first | exact absurd trivial hk | exact ⟨trivial, fun _ _ => rfl⟩
      | setIfAbsent k v ttlSeconds => exact ⟨hc k List.mem_cons_self, fun _ _ => rfl⟩
      | incr k => exact ⟨hc k List.mem_cons_self, fun _ _ => rfl⟩
      | expire k ttlSeconds => exact ⟨trivial, fun _ _ => rfl⟩
      | delete ks => exact ⟨trivial, fun _ _ => rfl⟩
      | deleteIfValue k v => exact ⟨trivial, fun _ _ => rfl⟩
      | take k =>
          have hk := hc k List.mem_cons_self
          cases k <;> first | exact absurd trivial hk | exact ⟨trivial, fun _ _ => rfl⟩
  | random => exact ⟨trivial, fun _ _ => rfl⟩
  | now => exact ⟨trivial, fun _ _ => rfl⟩
  | outer c => exact ⟨trivial, fun _ _ => rfl⟩
  | answer tokens => exact hc.elim

theorem aside_ask (c : OuterCmd) : Aside u (ask c) := aside_of_issues (issues_ask c)

theorem aside_refuseIf (p : Prop) [Decidable p] (e : AuthError) : Aside u (refuseIf p e : Auth Unit) :=
  aside_of_issues (issues_refuseIf p e)

/-- A session id is drawn and used at once. -/
theorem aside_start (userId : ℕ) (multi : Bool) : Aside u (start userId multi) := by
  intro q
  cases multi with
  | true => exact ⟨trivial, fun _ _ => rfl⟩
  | false => exact ⟨trivial, fun sid _ => ⟨⟨sid, rfl, rfl⟩, fun _ _ => rfl⟩⟩

/-- A refresh token is drawn and used at once. -/
theorem aside_issueTokens (user : User) (sid : ℕ) : Aside u (issueTokens cfg user sid) := by
  refine keeps_bind (aside_refuseIf _ _) fun _ => ?_
  refine keeps_bind (aside_of_issues (issues_approveReviewer user)) fun _ => ?_
  intro q
  exact ⟨trivial, fun token _ => ⟨rfl, fun _ _ => rfl⟩⟩

theorem aside_signIn (user : User) (quiet : Bool) : Aside u (signIn cfg user quiet) := by
  refine keeps_bind (aside_start _ _) fun sid => ?_
  refine keeps_bind (aside_issueTokens user sid) fun tokens => ?_
  exact keeps_bind (aside_ask _) fun _ => keeps_pure tokens

theorem aside_withLock {phone : String} {operation : Auth α} (h : Aside u operation) :
    Aside u (withLock phone operation) := by
  refine keeps_bind (aside_of_issues issues_random) fun owner => ?_
  refine keeps_bind (aside_of_issues (issues_one rfl id)) fun taken => ?_
  refine keeps_bind (aside_refuseIf _ _) fun _ => ?_
  refine keeps_bind (keeps_attempt h) fun result => ?_
  refine keeps_bind (aside_of_issues (issues_one rfl id)) fun _ => ?_
  cases result with
  | ok a => exact keeps_pure a
  | error e => exact fun _ => rfl

theorem codeKey_not_session {phone : String} (k : AuthKey) (h : CodeKey phone k) : ¬ SessionKey k := by
  intro hk
  cases k <;> first | exact h | exact hk

theorem aside_requestOtp (phone : String) : Aside u (requestOtp cfg phone) := by
  unfold requestOtp
  split
  · exact aside_withLock (aside_of_issues
      ((issues_sendCode phone).mono (Touches.mono codeKey_not_session)))
  · exact keeps_pure ()

theorem aside_createAccount (signup : PendingSignup) (accountType : SubscriptionStore.AccountType) :
    Aside u (createAccount signup accountType) := aside_of_issues (issues_createAccount _ _)

theorem aside_signUp (phone : String) (full : Option User) : Aside u (signUp cfg phone full) := by
  refine keeps_bind (aside_ask _) fun invitedAs => ?_
  split
  · refine keeps_bind (aside_createAccount _ _) fun user => ?_
    exact keeps_bind (aside_signIn user false) fun _ => keeps_pure _
  · refine keeps_bind (aside_of_issues issues_random) fun token => ?_
    exact keeps_bind (aside_of_issues (issues_one rfl id)) fun _ => keeps_pure _

theorem aside_enter (phone : String) : Aside u (enter cfg phone) := by
  refine keeps_bind (aside_of_issues (issues_parentCompanyFor phone)) fun parent => ?_
  cases parent with
  | some parent => exact keeps_bind (aside_signIn parent false) fun _ => keeps_pure _
  | none =>
      refine keeps_bind (aside_ask _) fun user => ?_
      refine keeps_bind (aside_refuseIf _ _) fun _ => ?_
      refine keeps_bind (aside_of_issues (issues_fullAccount user)) fun full => ?_
      split
      · refine keeps_bind (aside_signIn _ _) fun tokens => ?_
        exact keeps_bind (aside_ask _) fun _ => keeps_pure _
      · exact aside_signUp phone full

theorem aside_verifyOtp (phone code : String) : Aside u (verifyOtp cfg phone code) := by
  refine aside_withLock (keeps_bind ?_ fun _ => aside_enter phone)
  unfold proveNumber
  split
  · exact aside_of_issues ((issues_checkCode phone code).mono (Touches.mono codeKey_not_session))
  · exact keeps_pure ()

theorem aside_completeRegistration (token : ℕ) (accountType : SubscriptionStore.AccountType) :
    Aside u (completeRegistration cfg token accountType) := by
  refine keeps_bind (aside_refuseIf _ _) fun _ => ?_
  refine keeps_bind (aside_of_issues (issues_one rfl id)) fun raw => ?_
  refine keeps_bind (aside_of_issues (issues_orThrow _ _)) fun signup => ?_
  refine keeps_bind (aside_refuseIf _ _) fun _ => ?_
  refine aside_withLock (keeps_bind (aside_createAccount _ _) fun user => ?_)
  exact aside_signIn user true

theorem aside_adminSignIn (username password : String) :
    Aside u (adminSignIn cfg username password) := by
  refine keeps_bind (aside_of_issues (issues_one rfl id)) fun tries => ?_
  refine keeps_bind (aside_refuseIf _ _) fun _ => ?_
  refine keeps_bind (aside_ask _) fun row => ?_
  refine keeps_bind (aside_of_issues (issues_passwordValid _ _)) fun valid => ?_
  refine keeps_bind (aside_of_issues (issues_adminOf _ _)) fun found => ?_
  split
  · refine keeps_bind (aside_of_issues ?_) fun _ => fun _ => rfl
    exact issues_increment (P := fun k => ¬ SessionKey k) id _
  · refine keeps_bind (aside_of_issues (issues_one rfl id)) fun _ => ?_
    exact aside_signIn _ true

theorem accepts_ask {c : OuterCmd} {f : OuterResp c → Auth β} {q : Stage}
    {Q : Except AuthError β → Stage → Prop}
    (hok : ∀ a, stageAnswers u q (.outer c) (.ok a) → Accepts (sessionMonitor u) (f a) q Q)
    (herr : ∀ e, Q (.error e) q) : Accepts (sessionMonitor u) (ask c >>= f) q Q := by
  refine ⟨trivial, fun r hr => ?_⟩
  cases r with
  | ok a => exact hok a hr
  | error e => exact herr e

/-- Tokens may be handed out. -/
def MayAnswer (u : ℕ) (q : Stage) : Prop :=
  q.took ≠ some none ∧ ∀ sid, q.took = some (some (u, some sid)) → q.live = true

theorem mayAnswer_of_rest {q q' : Stage} (h : q'.rest = q.rest) (hq : MayAnswer u q) :
    MayAnswer u q' := by
  obtain ⟨htook, hlive⟩ := Prod.mk.inj h
  rw [MayAnswer, htook, (Prod.mk.inj hlive).1]
  exact hq

theorem accepts_handOut {q : Stage} (h : MayAnswer u q) (tokens : TokenPair) :
    Accepts (sessionMonitor u) (handOut tokens) q (fun _ _ => True) := ⟨h, fun _ _ => trivial⟩

/-- A part that is aside, then the tokens. -/
theorem accepts_handedOut {p : Auth α} {f : α → Auth Unit} {q : Stage} (hp : Aside u p)
    (hf : ∀ a, (∃ tokens, f a = handOut tokens) ∨ f a = pure ()) (h : MayAnswer u q) :
    Accepts (sessionMonitor u) (p >>= f) q (fun _ _ => True) := by
  rw [accepts_bind]
  apply hp.accepts
  intro out q' hrest
  cases out with
  | error e => trivial
  | ok a =>
      rcases hf a with ⟨tokens, htokens⟩ | hnothing
      · show Accepts (sessionMonitor u) (f a) q' _
        rw [htokens]
        exact accepts_handOut (mayAnswer_of_rest hrest h) tokens
      · show Accepts (sessionMonitor u) (f a) q' _
        rw [hnothing]
        trivial

/-- **A refresh goes on with its session only when it finds it current.** -/
theorem accepts_resume {user : User} {sid : Option ℕ} {q : Stage} (hsingle : Single u user)
    (htook : q.took = some (some (user.id, sid))) :
    Accepts (sessionMonitor u) (resume user.id user.isParentCompany sid) q
      (outcome (fun _ q' => MayAnswer u q') fun _ _ => True) := by
  cases hparent : user.isParentCompany with
  | true =>
      have hmay : ∀ q' : Stage, q'.took = q.took → MayAnswer u q' := by
        intro q' hq'
        constructor
        · rw [hq', htook]
          exact fun h => absurd (Option.some.inj h) (Option.some_ne_none _)
        · intro sid' hsid'
          rw [hq', htook] at hsid'
          have hid : user.id = u := congrArg Prod.fst (Option.some.inj (Option.some.inj hsid'))
          rw [hsingle hid] at hparent
          cases hparent
      cases sid with
      | some sid => exact hmay q rfl
      | none => exact ⟨trivial, fun _ _ => hmay _ rfl⟩
  | false =>
      refine ⟨trivial, fun active _ => ?_⟩
      cases sid with
      | none =>
          show Accepts (sessionMonitor u)
            (refuseIf (sessionOf active ≠ none) sessionReplaced >>= fun _ => start user.id false) _ _
          rw [accepts_bind, accepts_refuseIf]
          refine ⟨fun _ => trivial, fun _ => ?_⟩
          apply (aside_start user.id false).accepts
          intro out q' hrest
          cases out with
          | error e => trivial
          | ok sid' =>
              apply mayAnswer_of_rest hrest
              refine ⟨?_, fun other hother => ?_⟩
              · show q.took ≠ some none
                rw [htook]
                exact fun h => absurd (Option.some.inj h) (Option.some_ne_none _)
              · have hnone : some (some (user.id, none)) = some (some (u, some other)) :=
                  htook.symm.trans hother
                cases hnone
      | some sid =>
          show Accepts (sessionMonitor u)
            (refuseIf (sessionOf active ≠ some sid) sessionReplaced >>= fun _ =>
              redis (.expire (.activeSession user.id) sessionTtlSeconds) >>= fun _ => pure sid) _ _
          rw [accepts_bind, accepts_refuseIf]
          refine ⟨fun _ => trivial, fun hsame => ⟨trivial, fun _ _ => ?_⟩⟩
          have hactive : sessionOf active = some sid := not_not.mp hsame
          refine ⟨?_, fun other hother => ?_⟩
          · show q.took ≠ some none
            rw [htook]
            exact fun h => absurd (Option.some.inj h) (Option.some_ne_none _)
          · have hid : user.id = u := by
              have hheld : some (some (user.id, some sid)) = some (some (u, some other)) :=
                htook.symm.trans hother
              exact congrArg Prod.fst (Option.some.inj (Option.some.inj hheld))
            show decide (user.id = u ∧ q.took = some (some (u, sessionOf active))) = true
            rw [decide_eq_true_iff, htook, hactive, hid]
            exact ⟨rfl, rfl⟩

theorem accepts_refresh (token : ℕ) :
    Accepts (sessionMonitor u) (refresh cfg token) .start
      (outcome (fun _ q' => MayAnswer u q') fun _ _ => True) := by
  refine ⟨⟨rfl, rfl⟩, fun value _ => ?_⟩
  show Accepts (sessionMonitor u) (orThrow _ (readRefresh value) >>= _)
    { Stage.start with took := some (readRefresh value), live := false } _
  cases readRefresh value with
  | none => trivial
  | some held =>
      apply accepts_ask (fun found hfound => ?_) fun _ => trivial
      cases found with
      | none => trivial
      | some user =>
          have hid : user.id = held.1 := of_decide_eq_true hfound.1
          have hsingle : Single u user := hfound.2 user List.mem_cons_self
          show Accepts (sessionMonitor u) (resume user.id user.isParentCompany held.2 >>= _) _ _
          rw [accepts_bind]
          apply accepts_mono (accepts_resume hsingle (by rw [hid]))
          intro out q' hmay
          cases out with
          | error e => trivial
          | ok session =>
              show Accepts (sessionMonitor u)
                (ask (.markInvitesUsed user.mobile) >>= fun _ => issueTokens cfg user session) q' _
              have haside : Aside u
                  (ask (.markInvitesUsed user.mobile) >>= fun _ => issueTokens cfg user session) :=
                keeps_bind (aside_ask _) fun _ => aside_issueTokens user session
              apply haside.accepts
              intro out' q'' hrest
              cases out' with
              | error e => trivial
              | ok tokens => exact mayAnswer_of_rest hrest hmay

theorem accepts_revoke (token : ℕ) :
    Accepts (sessionMonitor u) (revoke token) .start (fun _ _ => True) := by
  refine ⟨⟨rfl, rfl⟩, fun value _ => ?_⟩
  dsimp only [Prog.bind]
  rcases readRefresh value with _ | ⟨userId, sid⟩
  · trivial
  · cases sid with
    | none => trivial
    | some sid => exact ⟨trivial, fun _ _ => trivial⟩

/-- **Every call keeps to the monitor.** -/
theorem accepts_authProgram (call : AuthCall) :
    Accepts (sessionMonitor u) (authProgram cfg call) .start (fun _ _ => True) := by
  have hstart : MayAnswer u .start :=
    ⟨fun h => absurd h.symm (Option.some_ne_none _), fun _ h => absurd h.symm (Option.some_ne_none _)⟩
  have htokens : ∀ tokens, (∃ t, handOut tokens = handOut t) ∨ handOut tokens = pure () :=
    fun tokens => .inl ⟨tokens, rfl⟩
  cases call with
  | signIn user quiet => exact accepts_handedOut (aside_signIn user quiet) htokens hstart
  | refresh token =>
      show Accepts (sessionMonitor u) (refresh cfg token >>= handOut) .start _
      rw [accepts_bind]
      apply accepts_mono (accepts_refresh token)
      intro out q' hmay
      cases out with
      | error e => trivial
      | ok tokens => exact accepts_handOut hmay tokens
  | revoke token => exact accepts_revoke token
  | adminSignIn username password =>
      exact accepts_handedOut (aside_adminSignIn username password) htokens hstart
  | requestOtp phone => exact (aside_requestOtp phone).accepts fun _ _ _ => trivial
  | verifyOtp phone code =>
      refine accepts_handedOut (aside_verifyOtp phone code) (fun out => ?_) hstart
      cases out with
      | tokens pair => exact .inl ⟨pair, rfl⟩
      | registrationRequired token types => exact .inr rfl
  | completeRegistration token accountType =>
      exact accepts_handedOut (aside_completeRegistration token accountType) htokens hstart

end Accepts

/-! ### Runs -/

/-- No answer names the account as the parent company. -/
def StaysSingle (u : ℕ) (_ : List (Event Resp)) (_ : Conf Resp AuthError Store) : Event Resp → Prop
  | .act _ (.outer c) r => ∀ user ∈ usersIn c r, Single u user
  | _ => True

/-- The runs of sign-ins, in which the account is never the parent company. -/
abbrev SessionRun (cfg : Setup) (u : ℕ) (s₀ : Store) :
    List (Event Resp) → Conf Resp AuthError Store → Prop :=
  (authMachine cfg fun _ => true).Run (StaysSingle u) (.start s₀)

/-- A later point of such a run. -/
abbrev SessionLater (cfg : Setup) (u : ℕ) :
    List (Event Resp) × Conf Resp AuthError Store → List (Event Resp) × Conf Resp AuthError Store →
      Prop :=
  (authMachine cfg fun _ => true).Later (StaysSingle u)

/-- What each call has in hand. -/
def stages (u : ℕ) (tr : List (Event Resp)) : ℕ → Stage := stateOf (sessionMonitor u) .start tr

theorem stages_act (tr : List (Event Resp)) (pid : ℕ) (c : AuthCmd) (r : Resp c) :
    stages u (.act pid c r :: tr) =
      Function.update (stages u tr) pid (stageNext u (stages u tr pid) c r) := stateOf_act tr pid c r

variable {tr : List (Event Resp)} {b c : Conf Resp AuthError Store} {e : Event Resp}

/-- What a step of a run does: it adds nothing to what is kept, or a call executes a command. -/
inductive Moved (u : ℕ) (tr : List (Event Resp)) (s s' : Store) (e : Event Resp) : Prop where
  | aside (hstages : stages u (e :: tr) = stages u tr) (hdrawn : s'.drawn = s.drawn)
      (hkept : ∀ k v, s'.redis.value k = some v → s.redis.value k = some v)
      (hevent : ∀ pid c r, e ≠ .act pid c r)
  | executes (pid : ℕ) (w : Answers) (cmd : AuthCmd) (hallowed : stageAllowed u (stages u tr pid) cmd)
      (hpossible : possible w cmd s = true) (hevent : e = .act pid cmd (effect w cmd s).1)
      (hstore : s' = (effect w cmd s).2)

theorem step_moved {l : (authMachine cfg fun _ => true).Label} (h : SessionRun cfg u s₀ tr b)
    (hs : (authMachine cfg fun _ => true).step b l = some (e, c)) : Moved u tr b.store c.store e := by
  rcases authStep_cases hs with ⟨o, ho, rfl, _⟩ | ⟨call, _, hstore, rfl, _⟩ |
    ⟨pid, w, cmd, k, r, hpool, hexec, rfl, _⟩
  · obtain ⟨hdrawn, hkept⟩ := pass_kept ho
    exact .aside rfl hdrawn hkept fun _ _ _ hevent => by cases hevent
  · rw [hstore]
    exact .aside rfl rfl (fun _ _ hv => hv) fun _ _ _ hevent => by cases hevent
  · have hallowed : stageAllowed u (stages u tr pid) cmd := by
      refine Run.allows (μ := sessionMonitor u) (F := fun _ => True) ?_ ?_ h hpool
      · intro call s p s' hbegin
        obtain ⟨rfl, _⟩ := Prod.mk.inj (Option.some.inj hbegin)
        exact accepts_authProgram call
      · intro tr' a pid' w' c' r' s' q hx hok
        cases c' with
        | outer c' =>
            obtain ⟨hpossible, rfl, _⟩ := exec_some hx
            exact ⟨hpossible, hok⟩
        | _ => trivial
    obtain ⟨hpossible, rfl, hstore⟩ := exec_some hexec
    exact .executes pid w cmd hallowed hpossible rfl hstore

/-! ### Values that are used up -/

/-- The value is drawn, and no call has it left to use. -/
def Used (u : ℕ) (tr : List (Event Resp)) (s : Store) (r : ℕ) : Prop :=
  r ∈ s.drawn ∧ ∀ pid, (stages u tr pid).fresh ≠ some r

/-- The drawn value that a key and what it holds carry. -/
def mark : AuthKey → AuthValue → Option ℕ
  | .activeSession _, .session sid => some sid
  | .refreshToken token, _ => some token
  | _, _ => none

theorem sessionKey_of_mark {k : AuthKey} {v : AuthValue} {r : ℕ} (h : mark k v = some r) :
    SessionKey k := by
  cases k <;> trivial

/-- A command writes a marked key only with the value its call has in hand, and then no longer has. -/
theorem marked_effect {w : Answers} {cmd : AuthCmd} {q : Stage} {k : AuthKey} {v : AuthValue} {r : ℕ}
    (hallowed : stageAllowed u q cmd) (hv : (effect w cmd s).2.redis.value k = some v)
    (hr : mark k v = some r) :
    s.redis.value k = some v ∨
      (q.fresh = some r ∧ (stageNext u q cmd (effect w cmd s).1).fresh = none) := by
  cases cmd with
  | redis cmd =>
      rcases value_redisExec hv with hv | ⟨ttlSeconds, rfl⟩ | ⟨ttlSeconds, rfl⟩ | rfl
      · exact .inl hv
      · cases k with
        | activeSession userId =>
            obtain ⟨sid, rfl, hfresh⟩ := hallowed
            obtain rfl := Option.some.inj hr
            exact .inr ⟨hfresh, rfl⟩
        | refreshToken token =>
            obtain rfl := Option.some.inj hr
            exact .inr ⟨hallowed, rfl⟩
        | _ => cases hr
      · exact absurd (sessionKey_of_mark hr) hallowed
      · exact absurd (sessionKey_of_mark hr) hallowed
  | _ => exact .inl hv

/-- What a call has in hand it had before, or drew now. -/
theorem fresh_effect {w : Answers} {cmd : AuthCmd} {q : Stage} {r : ℕ}
    (hpossible : possible w cmd s = true)
    (hr : (stageNext u q cmd (effect w cmd s).1).fresh = some r) :
    q.fresh = some r ∨ (r ∉ s.drawn ∧ r ∈ (effect w cmd s).2.drawn) := by
  cases cmd with
  | random =>
      obtain rfl := Option.some.inj hr
      exact .inr ⟨of_decide_eq_true hpossible, List.mem_cons_self⟩
  | redis cmd =>
      left
      cases cmd with
      | set k v ttlSeconds => cases k <;> first | exact hr | cases hr
      | take k => cases k <;> exact hr
      | get k => cases k <;> exact hr
      | _ => exact hr
  | _ => exact .inl hr

theorem drawn_effect (w : Answers) (cmd : AuthCmd) {r : ℕ} (h : r ∈ s.drawn) :
    r ∈ (effect w cmd s).2.drawn := by
  cases cmd with
  | random => exact List.mem_cons_of_mem _ h
  | _ => exact h

/-- **What is used up stays used up.** -/
theorem Used.step {r : ℕ} (hmoved : Moved u tr s s' e) (h : Used u tr s r) : Used u (e :: tr) s' r := by
  cases hmoved with
  | aside hstages hdrawn _ _ =>
      rw [Used, hstages, hdrawn]
      exact h
  | executes pid w cmd _ hpossible hevent hstore =>
      obtain ⟨hmem, hnone⟩ := h
      rw [Used, hevent, hstore, stages_act]
      refine ⟨drawn_effect w cmd hmem, fun other => ?_⟩
      by_cases hother : other = pid
      · rw [hother, Function.update_self]
        intro hfresh
        rcases fresh_effect hpossible hfresh with hold | ⟨hnew, _⟩
        · exact hnone pid hold
        · exact hnew hmem
      · rw [Function.update_of_ne hother]
        exact hnone other

/-- No two calls have the same value in hand, and what a key carries is used up. -/
structure Apart (u : ℕ) (tr : List (Event Resp)) (s : Store) : Prop where
  drawn : ∀ pid r, (stages u tr pid).fresh = some r → r ∈ s.drawn
  alone : ∀ pid other r, (stages u tr pid).fresh = some r → (stages u tr other).fresh = some r →
    pid = other
  used : ∀ k v r, s.redis.value k = some v → mark k v = some r → Used u tr s r

/-- Every session and refresh token in Redis was drawn. -/
def Recorded (s : Store) : Prop :=
  ∀ k v r, s.redis.value k = some v → mark k v = some r → r ∈ s.drawn

theorem Apart.step (hmoved : Moved u tr s s' e) (h : Apart u tr s) : Apart u (e :: tr) s' := by
  cases hmoved with
  | aside hstages hdrawn hkept hevent =>
      constructor
      · rw [hstages, hdrawn]
        exact h.drawn
      · rw [hstages]
        exact h.alone
      · intro k v r hv hr
        rw [Used, hstages, hdrawn]
        exact h.used k v r (hkept k v hv) hr
  | executes pid w cmd hallowed hpossible hevent hstore =>
      have hmoved : Moved u tr s s' e := .executes pid w cmd hallowed hpossible hevent hstore
      have hhand : ∀ other r, (stages u (e :: tr) other).fresh = some r →
          (stages u tr other).fresh = some r ∨ (other = pid ∧ r ∉ s.drawn ∧ r ∈ s'.drawn) := by
        intro other r hr
        rw [hevent, stages_act] at hr
        by_cases hother : other = pid
        · subst hother
          rw [Function.update_self] at hr
          rw [hstore]
          rcases fresh_effect hpossible hr with hold | hnew
          · exact .inl hold
          · exact .inr ⟨rfl, hnew⟩
        · rw [Function.update_of_ne hother] at hr
          exact .inl hr
      constructor
      · intro other r hr
        rcases hhand other r hr with hold | ⟨_, _, hnew⟩
        · rw [hstore]
          exact drawn_effect w cmd (h.drawn other r hold)
        · exact hnew
      · intro one other r hone hother
        rcases hhand one r hone with hold | ⟨rfl, hnew, _⟩
        · rcases hhand other r hother with hold' | ⟨_, hnew, _⟩
          · exact h.alone one other r hold hold'
          · exact absurd (h.drawn one r hold) hnew
        · rcases hhand other r hother with hold' | ⟨rfl, _, _⟩
          · exact absurd (h.drawn other r hold') hnew
          · rfl
      · intro k v r hv hr
        rw [hstore] at hv
        rcases marked_effect hallowed hv hr with hold | ⟨hfresh, hnext⟩
        · exact Used.step hmoved (h.used k v r hold hr)
        · -- the call that had the value in hand was the only one, and it has used it
          refine ⟨hstore ▸ drawn_effect w cmd (h.drawn pid r hfresh), fun other hother => ?_⟩
          rw [hevent, stages_act] at hother
          by_cases hne : other = pid
          · rw [hne, Function.update_self, hnext] at hother
            cases hother
          · rw [Function.update_of_ne hne] at hother
            exact hne (h.alone other pid r hother hfresh)

theorem run_apart (h₀ : Recorded s₀) (h : SessionRun cfg u s₀ tr b) : Apart u tr b.store := by
  refine Machine.Run.invariant (fun tr b => Apart u tr b.store) ?_ ?_ h
  · have hnothing : ∀ pid, (stages u [] pid).fresh = none := fun _ => rfl
    constructor
    · intro pid r hr
      cases (hnothing pid).symm.trans hr
    · intro pid other r hr
      cases (hnothing pid).symm.trans hr
    · intro k v r hv hr
      refine ⟨h₀ k v r hv hr, fun pid hfresh => ?_⟩
      cases (hnothing pid).symm.trans hfresh
  · intro tr b l e c hrun hapart hs _
    exact hapart.step (step_moved hrun hs)

/-- The key carries the value no longer. -/
def Gone (k : AuthKey) (r : ℕ) (s : Store) : Prop :=
  ∀ v, s.redis.value k = some v → mark k v ≠ some r

/-- **A value that is used up and gone from its key does not come back.** -/
theorem Gone.step {k : AuthKey} {r : ℕ} (hmoved : Moved u tr s s' e) (hused : Used u tr s r)
    (h : Gone k r s) : Gone k r s' := by
  intro v hv hr
  cases hmoved with
  | aside _ _ hkept _ => exact h v (hkept k v hv) hr
  | executes pid w cmd hallowed _ _ hstore =>
      rw [hstore] at hv
      rcases marked_effect hallowed hv hr with hold | ⟨hfresh, _⟩
      · exact h v hold hr
      · exact hused.2 pid hfresh

theorem used_gone_later {x y : List (Event Resp) × Conf Resp AuthError Store} {k : AuthKey} {r : ℕ}
    (h : SessionRun cfg u s₀ x.1 x.2) (hxy : SessionLater cfg u x y) (hused : Used u x.1 x.2.store r) :
    Used u y.1 y.2.store r ∧ (Gone k r x.2.store → Gone k r y.2.store) := by
  induction hxy with
  | refl => exact ⟨hused, id⟩
  | tail hxz hnext ih =>
      obtain ⟨l, e, hs, hok, htr⟩ := hnext
      have hmoved := step_moved (h.later hxz) hs
      rw [htr]
      exact ⟨ih.1.step hmoved, fun hgone => (ih.2 hgone).step hmoved ih.1⟩

/-! ### Asking for the session -/

/-- The session is the account's: `isCurrent` says so of its tokens. -/
def Current (s : Store) (userId sid : ℕ) : Prop :=
  ∀ w, ((isCurrent userId ⟨some sid, false⟩).run (effect w) s).1 = .ok true

theorem sessionOf_eq_some {v : Option AuthValue} {sid : ℕ} :
    sessionOf v = some sid ↔ v = some (.session sid) := by
  constructor
  · intro h
    rcases v with _ | v
    · cases h
    · cases v <;> cases h
      rfl
  · rintro rfl
    rfl

theorem current_iff {userId sid : ℕ} :
    Current s userId sid ↔ s.redis.value (.activeSession userId) = some (.session sid) := by
  have hrun : ∀ w, ((isCurrent userId ⟨some sid, false⟩).run (effect w) s).1 =
      .ok (decide (sessionOf (s.redis.value (.activeSession userId)) = some sid)) := fun _ => rfl
  constructor
  · intro h
    have hanswer := (hrun ⟨0, fun _ => .error .unavailable⟩).symm.trans (h _)
    exact sessionOf_eq_some.mp (of_decide_eq_true (Except.ok.inj hanswer))
  · intro h w
    rw [hrun, decide_eq_true (sessionOf_eq_some.mpr h)]

theorem gone_of_not_current {userId sid : ℕ} (h : ¬ Current s userId sid) :
    Gone (.activeSession userId) sid s := by
  intro v hv hr
  apply h
  rw [current_iff, hv]
  cases v <;> cases hr
  rfl

theorem not_current_of_gone {userId sid : ℕ} (h : Gone (.activeSession userId) sid s) :
    ¬ Current s userId sid := by
  intro hcurrent
  exact h _ (current_iff.mp hcurrent) rfl

/-! ### Taking a refresh token -/

/-- The call takes the refresh token, and this is what it held. -/
abbrev takes (pid token : ℕ) (held : Option AuthValue) : Event Resp :=
  .act pid (.redis (.take (.refreshToken token))) held

/-- The call hands tokens out. -/
abbrev handsOut (pid : ℕ) (tokens : TokenPair) : Event Resp := .act pid (.answer tokens) ()

theorem done_next {q : Stage} (c : AuthCmd) (r : Resp c) (h : q.done = true) :
    (stageNext u q c r).done = true := by
  cases c with
  | redis c =>
      cases c with
      | set k v ttlSeconds => cases k <;> exact h
      | take k => cases k <;> exact h
      | get k => cases k <;> exact h
      | _ => exact h
  | answer tokens => rfl
  | _ => exact h

/-- A call that handed tokens out is done. -/
theorem done_of_handsOut {pid : ℕ} {tokens : TokenPair} (h : handsOut pid tokens ∈ tr) :
    (stages u tr pid).done = true := by
  induction tr with
  | nil => cases h
  | cons e tr ih =>
      rcases List.mem_cons.mp h with rfl | h
      · rw [stages_act, Function.update_self]
        rfl
      · have hdone := ih h
        cases e with
        | act other c r =>
            rw [stages_act]
            by_cases hother : pid = other
            · subst hother
              rw [Function.update_self]
              exact done_next c r hdone
            · rwa [Function.update_of_ne hother]
        | _ => exact hdone

/-- What a call that took a token of this session comes to, when the session is not current. -/
structure Stuck (u sid : ℕ) (q : Stage) : Prop where
  took : q.took = some (some (u, some sid))
  live : q.live = false
  done : q.done = false

/-- **A call stuck with a session that is gone stays stuck.** -/
theorem Stuck.effect {w : Answers} {cmd : AuthCmd} {q : Stage} {sid : ℕ} (h : Stuck u sid q)
    (hallowed : stageAllowed u q cmd) (hgone : Gone (.activeSession u) sid s) :
    Stuck u sid (stageNext u q cmd (effect w cmd s).1) := by
  cases cmd with
  | redis cmd =>
      cases cmd with
      | set k v ttlSeconds => cases k <;> exact ⟨h.took, h.live, h.done⟩
      | take k =>
          cases k with
          | refreshToken token =>
              exact absurd (h.took.symm.trans hallowed.1) (Option.some_ne_none _)
          | _ => exact h
      | get k =>
          cases k with
          | activeSession userId =>
              refine ⟨h.took, ?_, h.done⟩
              apply decide_eq_false
              rintro ⟨rfl, hsame⟩
              have hread : some sid = sessionOf (s.redis.value (.activeSession userId)) :=
                congrArg Prod.snd (Option.some.inj (Option.some.inj (h.took.symm.trans hsame)))
              exact hgone _ (sessionOf_eq_some.mp hread.symm) rfl
          | _ => exact h
      | _ => exact h
  | answer tokens => exact absurd (h.live.symm.trans (hallowed.2 sid h.took)) Bool.false_ne_true
  | random => exact ⟨h.took, h.live, h.done⟩
  | _ => exact h

/-- The call that takes the token is stuck from then on. -/
theorem stuck_takes {w : Answers} {token sid : ℕ} {q : Stage}
    (hallowed : stageAllowed u q (.redis (.take (.refreshToken token))))
    (hheld : s.redis.value (.refreshToken token) = some (.refresh u (some sid))) :
    Stuck u sid (stageNext u q (.redis (.take (.refreshToken token)))
      (effect w (.redis (.take (.refreshToken token))) s).1) := by
  refine ⟨?_, rfl, hallowed.2⟩
  show some (readRefresh (s.redis.value (.refreshToken token))) = _
  rw [hheld]
  rfl

theorem stuck_later {x y : List (Event Resp) × Conf Resp AuthError Store} {sid : ℕ}
    (h : SessionRun cfg u s₀ x.1 x.2) (hxy : SessionLater cfg u x y) (hused : Used u x.1 x.2.store sid)
    (hgone : Gone (.activeSession u) sid x.2.store) :
    ∃ more, y.1 = more ++ x.1 ∧
      ∀ pid token, takes pid token (some (.refresh u (some sid))) ∈ more →
        Stuck u sid (stages u y.1 pid) := by
  induction hxy with
  | refl => exact ⟨[], rfl, fun pid token htakes => by cases htakes⟩
  | @tail z y hxz hnext ih =>
      obtain ⟨l, e, hs, hok, htr⟩ := hnext
      obtain ⟨more, hmore, hstuck⟩ := ih
      have hgone' := (used_gone_later h hxz hused).2 hgone
      refine ⟨e :: more, by rw [htr, hmore]; rfl, fun pid token htakes => ?_⟩
      rw [htr]
      cases step_moved (h.later hxz) hs with
      | aside hstages _ _ hevent =>
          rw [hstages]
          rcases List.mem_cons.mp htakes with hnow | hbefore
          · exact absurd hnow.symm (hevent _ _ _)
          · exact hstuck pid token hbefore
      | executes other w cmd hallowed _ hevent _ =>
          subst hevent
          rw [stages_act]
          rcases List.mem_cons.mp htakes with hnow | hbefore
          · have hheld : ∀ r, r = (effect w cmd z.2.store).1 →
                takes pid token (some (.refresh u (some sid))) = .act other cmd r →
                Stuck u sid (Function.update (stages u z.1) other
                  (stageNext u (stages u z.1 other) cmd (effect w cmd z.2.store).1) pid) := by
              intro r hr hevent
              cases hevent
              rw [Function.update_self]
              exact stuck_takes hallowed hr.symm
            exact hheld _ rfl hnow
          · by_cases hother : pid = other
            · subst hother
              rw [Function.update_self]
              exact (hstuck pid token hbefore).effect hallowed hgone'
            · rw [Function.update_of_ne hother]
              exact hstuck pid token hbefore

/-! ### Taking it once -/

/-- What the trace says of a call's tokens, its stage says. -/
structure Told (u : ℕ) (tr : List (Event Resp)) : Prop where
  took : ∀ pid token held, takes pid token held ∈ tr → (stages u tr pid).took = some (readRefresh held)
  done : ∀ pid, (stages u tr pid).done = true → (stages u tr pid).took ≠ some none

/-- A token that gave what it held is used up, gone, and was given to one call. -/
def TakenOnce (u : ℕ) (tr : List (Event Resp)) (s : Store) : Prop :=
  ∀ token pid held, takes pid token (some held) ∈ tr →
    Used u tr s token ∧ Gone (.refreshToken token) token s ∧
      ∀ other held', takes other token (some held') ∈ tr → other = pid

theorem took_next {q : Stage} {cmd : AuthCmd} {r : Resp cmd} {held : Option (ℕ × Option ℕ)}
    (hallowed : stageAllowed u q cmd) (hq : q.took = some held) :
    (stageNext u q cmd r).took = some held := by
  cases cmd with
  | redis c =>
      cases c with
      | set k v ttlSeconds => cases k <;> exact hq
      | get k => cases k <;> exact hq
      | take k =>
          cases k with
          | refreshToken token => exact absurd (hq.symm.trans hallowed.1) (Option.some_ne_none _)
          | _ => exact hq
      | _ => exact hq
  | _ => exact hq

theorem done_took_next {q : Stage} {cmd : AuthCmd} {r : Resp cmd} (hallowed : stageAllowed u q cmd)
    (hq : q.done = true → q.took ≠ some none) (hdone : (stageNext u q cmd r).done = true) :
    (stageNext u q cmd r).took ≠ some none := by
  cases cmd with
  | redis c =>
      cases c with
      | set k v ttlSeconds => cases k <;> exact hq hdone
      | get k => cases k <;> exact hq hdone
      | take k =>
          cases k with
          | refreshToken token => exact absurd (hallowed.2.symm.trans hdone) Bool.false_ne_true
          | _ => exact hq hdone
      | _ => exact hq hdone
  | answer tokens => exact hallowed.1
  | _ => exact hq hdone

theorem Told.step (hmoved : Moved u tr s s' e) (h : Told u tr) : Told u (e :: tr) := by
  cases hmoved with
  | aside hstages _ _ hevent =>
      constructor
      · intro pid token held htakes
        rw [hstages]
        rcases List.mem_cons.mp htakes with hnow | hbefore
        · exact absurd hnow.symm (hevent _ _ _)
        · exact h.took pid token held hbefore
      · rw [hstages]
        exact h.done
  | executes other w cmd hallowed _ hevent _ =>
      generalize (effect w cmd s).1 = r at hevent
      subst hevent
      constructor
      · intro pid token held htakes
        rcases List.mem_cons.mp htakes with hnow | hbefore
        · cases hnow
          rw [stages_act, Function.update_self]
          rfl
        · rw [stages_act]
          by_cases hpid : pid = other
          · subst hpid
            rw [Function.update_self]
            exact took_next hallowed (h.took pid token held hbefore)
          · rw [Function.update_of_ne hpid]
            exact h.took pid token held hbefore
      · intro pid
        rw [stages_act]
        by_cases hpid : pid = other
        · subst hpid
          rw [Function.update_self]
          exact done_took_next hallowed (h.done pid)
        · rw [Function.update_of_ne hpid]
          exact h.done pid

theorem TakenOnce.step (hapart : Apart u tr s) (hmoved : Moved u tr s s' e) (h : TakenOnce u tr s) :
    TakenOnce u (e :: tr) s' := by
  -- what was taken before stays taken
  have hbefore : ∀ token pid held, takes pid token (some held) ∈ tr →
      Used u (e :: tr) s' token ∧ Gone (.refreshToken token) token s' := by
    intro token pid held htakes
    obtain ⟨hused, hgone, _⟩ := h token pid held htakes
    exact ⟨hused.step hmoved, hgone.step hmoved hused⟩
  -- what is taken now was there, so no call had taken it
  have hnow : ∀ token pid held, takes pid token (some held) = e →
      (Used u (e :: tr) s' token ∧ Gone (.refreshToken token) token s') ∧
        ∀ other held', takes other token (some held') ∉ tr := by
    intro token pid held htakes
    cases hmoved with
    | aside _ _ _ hevent => exact absurd htakes.symm (hevent _ _ _)
    | executes other w cmd hallowed hpossible hevent hstore =>
        have hmoved : Moved u tr s s' e := .executes other w cmd hallowed hpossible hevent hstore
        have hheld : ∀ r, r = (effect w cmd s).1 → takes pid token (some held) = .act other cmd r →
            cmd = .redis (.take (.refreshToken token)) ∧
              s.redis.value (.refreshToken token) = some held := by
          intro r hr hevent'
          cases hevent'
          exact ⟨rfl, hr.symm⟩
        obtain ⟨hcmd, hvalue⟩ := hheld _ rfl (htakes.trans hevent)
        subst hcmd
        have hused : Used u tr s token := hapart.used _ _ _ hvalue rfl
        refine ⟨⟨hused.step hmoved, ?_⟩, fun other' held' hother => ?_⟩
        · intro v hv _
          rw [hstore] at hv
          have hnone : (s.redis.put (.refreshToken token) none).value (.refreshToken token) = none :=
            Redis.value_put_self _ _ _
          cases hnone.symm.trans hv
        · obtain ⟨_, hgone, _⟩ := h token other' held' hother
          exact hgone held hvalue rfl
  intro token pid held htakes
  rcases List.mem_cons.mp htakes with hevent | hold
  · obtain ⟨hkept, hnone⟩ := hnow token pid held hevent
    refine ⟨hkept.1, hkept.2, fun other held' hother => ?_⟩
    rcases List.mem_cons.mp hother with hevent' | hold'
    · exact (Event.act.inj (hevent'.trans hevent.symm)).1
    · exact absurd hold' (hnone other held')
  · obtain ⟨hused, hgone⟩ := hbefore token pid held hold
    refine ⟨hused, hgone, fun other held' hother => ?_⟩
    rcases List.mem_cons.mp hother with hevent' | hold'
    · exact absurd hold ((hnow token other held' hevent').2 pid held)
    · exact (h token pid held hold).2.2 other held' hold'

theorem run_told (h : SessionRun cfg u s₀ tr b) : Told u tr := by
  refine Machine.Run.invariant (fun tr _ => Told u tr) ?_ ?_ h
  · exact ⟨fun _ _ _ htakes => absurd htakes List.not_mem_nil,
      fun _ hdone => absurd hdone Bool.false_ne_true⟩
  · intro tr b l e c hrun htold hs _
    exact htold.step (step_moved hrun hs)

theorem run_takenOnce (h₀ : Recorded s₀) (h : SessionRun cfg u s₀ tr b) : TakenOnce u tr b.store := by
  refine Machine.Run.invariant (fun tr b => TakenOnce u tr b.store) ?_ ?_ h
  · exact fun _ _ _ htakes => absurd htakes List.not_mem_nil
  · intro tr b l e c hrun htaken hs _
    exact htaken.step (run_apart h₀ hrun) (step_moved hrun hs)

/-- The call takes this refresh token and hands tokens out. -/
def Exchanges (tr : List (Event Resp)) (pid token : ℕ) : Prop :=
  (∃ held, takes pid token held ∈ tr) ∧ ∃ tokens, handsOut pid tokens ∈ tr

/-- **One session at a time.**  At every moment at most one session of the account is current.  One
that was current and is not any more is never current again, so none of its access tokens works, and
a call that takes a refresh token of it, whenever that was issued, hands out nothing.  Each refresh
token is exchanged by at most one call. -/
theorem one_session {x y z : List (Event Resp) × Conf Resp AuthError Store} (h₀ : Recorded s₀)
    (h : SessionRun cfg u s₀ x.1 x.2) (hxy : SessionLater cfg u x y) (hyz : SessionLater cfg u y z) :
    (∀ sid other, Current x.2.store u sid → Current x.2.store u other → sid = other) ∧
      (∀ sid, Current x.2.store u sid → ¬ Current y.2.store u sid →
        ¬ Current z.2.store u sid ∧
          ∃ more, z.1 = more ++ y.1 ∧ ∀ pid token tokens,
            takes pid token (some (.refresh u (some sid))) ∈ more → handsOut pid tokens ∉ z.1) ∧
      ∀ token pid other, Exchanges x.1 pid token → Exchanges x.1 other token → pid = other := by
  refine ⟨fun sid other hsid hother => ?_, fun sid hsid hstopped => ?_, fun token pid other => ?_⟩
  · have hsame := (current_iff.mp hsid).symm.trans (current_iff.mp hother)
    exact AuthValue.session.inj (Option.some.inj hsame)
  · have hused : Used u x.1 x.2.store sid := (run_apart h₀ h).used _ _ _ (current_iff.mp hsid) rfl
    have hused' := (used_gone_later (k := .activeSession u) h hxy hused).1
    have hgone := gone_of_not_current hstopped
    refine ⟨not_current_of_gone ((used_gone_later (h.later hxy) hyz hused').2 hgone), ?_⟩
    obtain ⟨more, hmore, hstuck⟩ := stuck_later (h.later hxy) hyz hused' hgone
    refine ⟨more, hmore, fun pid token tokens htakes hhands => ?_⟩
    have hdone := done_of_handsOut (u := u) hhands
    rw [(hstuck pid token htakes).done] at hdone
    cases hdone
  · -- a call that handed tokens out got what its token held
    have hgot : ∀ call, Exchanges x.1 call token → ∃ held, takes call token (some held) ∈ x.1 := by
      intro call hexchanges
      obtain ⟨⟨held, htakes⟩, tokens, hhands⟩ := hexchanges
      have htold := run_told h
      have htook := htold.took call token held htakes
      cases held with
      | some held => exact ⟨held, htakes⟩
      | none => exact absurd htook (htold.done call (done_of_handsOut hhands))
    intro hpid hother
    obtain ⟨held, htakes⟩ := hgot pid hpid
    obtain ⟨held', htakes'⟩ := hgot other hother
    exact ((run_takenOnce h₀ h token pid held htakes).2.2 other held' htakes').symm

/-! ### A run -/

/-- An account with a role. -/
def driver : User := ⟨1, none, false, true, none, ["DRIVER"]⟩

/-- The next value drawn is this one, and the account is found. -/
def drawing (r : ℕ) : Answers where
  random := r
  outer
    | .findById id => .ok (some { driver with id := id })
    | .markInvitesUsed _ => .ok ()
    | .publishSignedIn _ _ _ => .ok ()
    | _ => .error .unavailable

def noKeys : Store := ⟨⟨0, fun _ => none⟩, []⟩

def plainSetup : Setup := ⟨true, fun _ => none, fun phone code => phone ++ code, id⟩

abbrev PlainLabel : Type := (authMachine plainSetup fun _ => true).Label

instance (tr : List (Event Resp)) (b : Conf Resp AuthError Store) (e : Event Resp) :
    Decidable (StaysSingle 1 tr b e) :=
  match e with
  | .outside => isTrue trivial
  | .start _ => isTrue trivial
  | .act _ (.outer c) r => inferInstanceAs (Decidable (∀ user ∈ usersIn c r, Single 1 user))
  | .act _ (.redis _) _ => isTrue trivial
  | .act _ .random _ => isTrue trivial
  | .act _ .now _ => isTrue trivial
  | .act _ (.answer _) _ => isTrue trivial

/-- A sign-in, session 11 and refresh token 12. -/
def first : List PlainLabel :=
  .start (.signIn driver false) :: [11, 0, 12, 0, 0, 0].map fun r => .act 0 (drawing r)

/-- A sign-in elsewhere, session 13. -/
def second : List PlainLabel :=
  .start (.signIn driver false) :: [13, 0].map fun r => .act 1 (drawing r)

/-- A refresh with token 12. -/
def third : List PlainLabel :=
  .start (.refresh 12) :: [0, 0, 0].map fun r => .act 2 (drawing r)

def replayed (x : List (Event Resp) × Conf Resp AuthError Store) (ls : List PlainLabel) :
    Option (List (Event Resp) × Conf Resp AuthError Store) :=
  (authMachine plainSetup fun _ => true).play (StaysSingle 1) x.1 x.2 ls

/-- What is left of the session's key and of the calls. -/
def seen (x : List (Event Resp) × Conf Resp AuthError Store) : Option AuthValue × List Bool :=
  (x.2.store.redis.value (.activeSession 1), x.2.pool.map Prog.finished)

theorem one_session_replaced :
    ∃ x y z, replayed ([], .start noKeys) first = some x ∧ replayed x second = some y ∧
      replayed y third = some z ∧ Current x.2.store 1 11 ∧ ¬ Current y.2.store 1 11 ∧
      ¬ Current z.2.store 1 11 := by
  have hend : ((replayed ([], .start noKeys) first).bind fun x => (replayed x second).bind fun y =>
      (replayed y third).map fun z => (seen x, seen y, seen z)) =
        some ((some (.session 11), [true]), (some (.session 13), [true, false]),
          (some (.session 13), [true, false, true])) := by decide
  obtain ⟨x, hx, hrest⟩ := Option.bind_eq_some_iff.mp hend
  obtain ⟨y, hy, hrest'⟩ := Option.bind_eq_some_iff.mp hrest
  obtain ⟨z, hz, hseen⟩ := Option.map_eq_some_iff.mp hrest'
  have hfirst : seen x = (some (.session 11), [true]) := congrArg Prod.fst hseen
  have hsecond : seen y = (some (.session 13), [true, false]) :=
    congrArg (Prod.fst ∘ Prod.snd) hseen
  have hcurrent : Current x.2.store 1 11 := current_iff.mpr (congrArg Prod.fst hfirst)
  have hstopped : ¬ Current y.2.store 1 11 := by
    rw [current_iff, show y.2.store.redis.value (.activeSession 1) = some (.session 13) from
      congrArg Prod.fst hsecond]
    decide
  have hrun : SessionRun plainSetup 1 noKeys x.1 x.2 := Machine.play_run .nil hx
  have hxy : SessionLater plainSetup 1 x y := Machine.play_later hy
  have hyz : SessionLater plainSetup 1 y z := Machine.play_later hz
  have hrecorded : Recorded noKeys := fun _ _ _ hv => absurd hv.symm (Option.some_ne_none _)
  obtain ⟨_, hnever, _⟩ := one_session hrecorded hrun hxy hyz
  exact ⟨x, y, z, hx, hy, hz, hcurrent, hstopped, (hnever 11 hcurrent hstopped).1⟩

end TransportBackend.OneSession
