import TransportBackend.SignInRun

/-!
# The admin's password, guessed in parallel

`adminSignIn` reads the username's failures, checks the password, and counts a failure afterwards.  So
calls that read the counter together all check a password, and the limit holds only for calls that are
let on while the counter **and the calls not counted yet** are below it.

* `turnMonitor` — whether a call was let on and whether its password was checked;
* `checked` — the passwords checked for a username so far;
* `TurnStep` — what one step does to the counter, the calls not counted yet and the checks;
* `tries_bounded` — **at most `adminSignInTries` checks while the counter neither goes nor is cleared**,
  in a run whose calls are let on below the limit;
* `not_tries_bounded` — and six checks when six calls read the counter together.
-/

namespace TransportBackend.AdminTries

open TransportBackend.AtomicProgram
open TransportBackend.AtomicProgram.Prog
open TransportBackend.InterleavedRun
open TransportBackend.MonitoredProgram
open TransportBackend.RedisStore
open TransportBackend.RegistrationStore
open TransportBackend.RegistrationService
open TransportBackend.RegistrationFrame
open TransportBackend.SignInRun

variable {cfg : Setup} {s s' s₀ : Store} {name : String}

/-! ### Whose turn it is -/

/-- Where a call stands: not let on or already counted, let on for a username, or its password
checked. -/
inductive Turn where
  | idle
  | letOn (name : String)
  | checked (name : String)
  deriving DecidableEq

def isFailures : AuthKey → Prop
  | .adminSignInFailures _ => True
  | _ => False

def turnAllowed (q : Turn) : AuthCmd → Prop
  | .redis (.get (.adminSignInFailures _)) => q = .idle
  | .redis (.set k _ _) => ¬ isFailures k
  | .redis (.setIfAbsent k _ _) => ¬ isFailures k
  | .redis (.incr (.adminSignInFailures name)) => q = .letOn name ∨ q = .checked name
  | .redis (.delete ks) =>
      (q = .idle ∧ ∀ k ∈ ks, ¬ isFailures k) ∨
        ∃ name, q = .checked name ∧ ks = [.adminSignInFailures name]
  | .redis (.deleteIfValue k _) => ¬ isFailures k
  | .redis (.take k) => ¬ isFailures k
  | _ => True

def turnNext (q : Turn) : (c : AuthCmd) → Resp c → Turn
  | .redis (.get (.adminSignInFailures name)), r =>
      if countOf r < adminSignInTries then .letOn name else q
  | .redis (.incr (.adminSignInFailures _)), _ => .idle
  | .redis (.delete _), _ => .idle
  | .outer (.adminRow _), .error _ =>
      match q with
      | .letOn _ => .idle
      | _ => q
  | .outer (.verifyPassword _ _), _ =>
      match q with
      | .letOn name => .checked name
      | _ => q
  | _, _ => q

def turnMonitor : Monitor Resp Turn where
  allowed := turnAllowed
  answers _ _ _ := True
  next := turnNext

/-! ### Every call keeps to it -/

section Accepts

variable {α β : Type}

/-- A part of a call that has no turn and asks for none. -/
abbrev Idle (p : Auth α) : Prop := Accepts turnMonitor p .idle fun _ q => q = .idle

theorem idle_of_issues {p : Auth α} (h : p.Issues (Touches fun k => ¬ isFailures k)) : Idle p := by
  induction p with
  | ret a => exact rfl
  | throw e => exact rfl
  | call c k ih =>
      have hc : Touches (fun k => ¬ isFailures k) c := h.1
      have hnext : ∀ r, Idle (k r) := fun r => ih r (h.2 r trivial)
      cases c with
      | redis c =>
          cases c with
          | get j =>
              have hj := hc j List.mem_cons_self
              cases j <;> first | exact absurd trivial hj | exact ⟨trivial, fun r _ => hnext r⟩
          | ttl j => exact ⟨trivial, fun r _ => hnext r⟩
          | set j v ttlSeconds => exact ⟨hc j List.mem_cons_self, fun r _ => hnext r⟩
          | setIfAbsent j v ttlSeconds => exact ⟨hc j List.mem_cons_self, fun r _ => hnext r⟩
          | incr j =>
              have hj := hc j List.mem_cons_self
              cases j <;> first | exact absurd trivial hj | exact ⟨trivial, fun r _ => hnext r⟩
          | expire j ttlSeconds => exact ⟨trivial, fun r _ => hnext r⟩
          | delete ks => exact ⟨.inl ⟨rfl, hc⟩, fun r _ => hnext r⟩
          | deleteIfValue j v => exact ⟨hc j List.mem_cons_self, fun r _ => hnext r⟩
          | take j => exact ⟨hc j List.mem_cons_self, fun r _ => hnext r⟩
      | outer c =>
          refine ⟨trivial, fun r _ => ?_⟩
          cases c <;> first | exact hnext r | (cases r <;> exact hnext _)
      | answer tokens => exact hc.elim
      | random => exact ⟨trivial, fun r _ => hnext r⟩
      | now => exact ⟨trivial, fun r _ => hnext r⟩

theorem idle_bind {p : Auth α} {f : α → Auth β} (hp : Idle p) (hf : ∀ a, Idle (f a)) :
    Idle (p >>= f) := by
  rw [Idle, accepts_bind]
  apply accepts_mono hp
  rintro out q rfl
  cases out with
  | ok a => exact hf a
  | error e => rfl

theorem sessionKey_not_failures (k : AuthKey) (h : SessionKey k) : ¬ isFailures k := by
  intro hk
  cases k <;> first | exact h | exact hk

theorem entryKey_not_failures (k : AuthKey) (h : EntryKey k) : ¬ isFailures k := by
  intro hk
  cases k <;> first | exact h | exact hk

theorem codeKey_not_failures {phone : String} (k : AuthKey) (h : CodeKey phone k) :
    ¬ isFailures k := by
  intro hk
  cases k <;> first | exact h | exact hk

theorem idle_signIn (user : User) (quiet : Bool) : Idle (signIn cfg user quiet) :=
  idle_of_issues ((issues_signIn user quiet).mono (Touches.mono sessionKey_not_failures))

theorem idle_handOut (tokens : TokenPair) : Idle (handOut tokens) := ⟨trivial, fun _ _ => rfl⟩

/-- The password is checked, if the row has one. -/
theorem accepts_passwordValid (password : String) (row : Option AdminRow) :
    Accepts turnMonitor (passwordValid password row) (.letOn name)
      (outcome (fun valid q => q = .checked name ∨ (valid = false ∧ q = .letOn name))
        fun _ _ => True) := by
  unfold passwordValid
  split
  · refine ⟨trivial, fun r _ => ?_⟩
    cases r with
    | ok valid => exact .inl rfl
    | error e => trivial
  · exact .inr ⟨rfl, rfl⟩

/-- Reading the account keeps the turn. -/
theorem accepts_adminOf (valid : Bool) (row : Option AdminRow) (q : Turn) :
    Accepts turnMonitor (adminOf valid row) q
      (outcome (fun found q' => q' = q ∧ (valid = false → found = none)) fun _ _ => True) := by
  cases row with
  | none => exact ⟨rfl, fun _ => rfl⟩
  | some row =>
      cases valid with
      | false => exact ⟨rfl, fun _ => rfl⟩
      | true =>
          refine ⟨trivial, fun r _ => ?_⟩
          cases r with
          | ok found => exact ⟨rfl, fun h => absurd h.symm Bool.false_ne_true⟩
          | error e => trivial

theorem accepts_adminSignIn (username password : String) :
    Accepts turnMonitor (adminSignIn cfg username password) .idle
      (outcome (fun _ q => q = .idle) fun _ _ => True) := by
  refine ⟨rfl, fun tries _ => ?_⟩
  show Accepts turnMonitor (refuseIf (adminSignInTries ≤ countOf tries) _ >>= _)
    (if countOf tries < adminSignInTries then Turn.letOn (cfg.lowered username) else .idle) _
  by_cases hbelow : countOf tries < adminSignInTries
  · rw [if_pos hbelow, accepts_bind, accepts_refuseIf]
    refine ⟨fun _ => trivial, fun _ => ⟨trivial, fun row _ => ?_⟩⟩
    cases row with
    | error e => trivial
    | ok row =>
        show Accepts turnMonitor (passwordValid password row >>= _) (.letOn (cfg.lowered username)) _
        rw [accepts_bind]
        apply accepts_mono (accepts_passwordValid password row)
        rintro out q hout
        cases out with
        | error e => trivial
        | ok valid =>
            show Accepts turnMonitor (adminOf valid row >>= _) q _
            rw [accepts_bind]
            apply accepts_mono (accepts_adminOf valid row q)
            intro out' q' hout'
            cases out' with
            | error e => trivial
            | ok found =>
                obtain ⟨rfl, hnone⟩ := hout'
                have hturn : q' = .letOn (cfg.lowered username) ∨ q' = .checked (cfg.lowered username) :=
                  hout.elim .inr fun h => .inl h.2
                show Accepts turnMonitor _ q' _
                split
                · refine ⟨hturn, fun count _ => ?_⟩
                  show Accepts turnMonitor ((if count = 1 then _ else _) >>= _) Turn.idle _
                  split
                  · exact ⟨trivial, fun _ _ => trivial⟩
                  · trivial
                · rename_i user hfound
                  have hchecked : q' = .checked (cfg.lowered username) := by
                    rcases hout with hchecked | ⟨hinvalid, _⟩
                    · exact hchecked
                    · rw [hnone hinvalid] at hfound
                      cases hfound
                  refine ⟨.inr ⟨_, hchecked, rfl⟩, fun _ _ => ?_⟩
                  apply accepts_mono (idle_signIn user true)
                  intro out'' q'' hq''
                  cases out'' with
                  | ok tokens => exact hq''
                  | error e => trivial
  · rw [if_neg hbelow, accepts_bind, accepts_refuseIf]
    exact ⟨fun _ => trivial, fun hnot => absurd (not_lt.mp hbelow) hnot⟩

/-- **Every call keeps to the monitor.** -/
theorem accepts_authProgram (call : AuthCall) :
    Accepts turnMonitor (authProgram cfg call) .idle (fun _ _ => True) := by
  have hidle : ∀ {p : Auth Unit}, Idle p → Accepts turnMonitor p .idle (fun _ _ => True) :=
    fun h => accepts_mono h fun _ _ _ => trivial
  cases call with
  | signIn user quiet => exact hidle (idle_bind (idle_signIn user quiet) idle_handOut)
  | refresh token =>
      exact hidle (idle_bind (idle_of_issues
        ((issues_refresh token).mono (Touches.mono sessionKey_not_failures))) idle_handOut)
  | revoke token =>
      exact hidle (idle_of_issues ((issues_revoke token).mono (Touches.mono sessionKey_not_failures)))
  | adminSignIn username password =>
      show Accepts turnMonitor (adminSignIn cfg username password >>= handOut) .idle _
      rw [accepts_bind]
      apply accepts_mono (accepts_adminSignIn username password)
      intro out q hq
      cases out with
      | error e => trivial
      | ok tokens => exact ⟨trivial, fun _ _ => trivial⟩
  | requestOtp phone =>
      exact hidle (idle_of_issues (issues_requestOtp id codeKey_not_failures))
  | verifyOtp phone code =>
      refine hidle (idle_bind (idle_of_issues
        (issues_verifyOtp code id codeKey_not_failures entryKey_not_failures)) fun out => ?_)
      cases out with
      | tokens pair => exact idle_handOut pair
      | registrationRequired token types => exact rfl
  | completeRegistration token accountType =>
      exact hidle (idle_bind (idle_of_issues
        (issues_completeRegistration token accountType (fun _ => id) entryKey_not_failures))
        idle_handOut)

end Accepts

/-! ### Counting -/

/-- Where each call stands. -/
def turns (tr : List (Event Resp)) : ℕ → Turn := stateOf turnMonitor .idle tr

/-- The passwords checked for a username. -/
def checked (name : String) : List (Event Resp) → ℕ
  | [] => 0
  | .act pid (.outer (.verifyPassword _ _)) _ :: tr =>
      checked name tr + if turns tr pid = .letOn name then 1 else 0
  | _ :: tr => checked name tr

/-- The username's failures. -/
def failures (name : String) (s : Store) : ℕ := countOf (s.redis.value (.adminSignInFailures name))

def isLetOn (name : String) (q : Turn) : ℤ := if q = .letOn name then 1 else 0

def isChecked (name : String) (q : Turn) : ℤ := if q = .checked name then 1 else 0

/-- The calls let on whose password is not checked. -/
def letOnCalls (name : String) (tr : List (Event Resp)) (n : ℕ) : ℤ :=
  owed turnMonitor .idle (isLetOn name) tr n

/-- The calls whose password is checked and not counted. -/
def checkedCalls (name : String) (tr : List (Event Resp)) (n : ℕ) : ℤ :=
  owed turnMonitor .idle (isChecked name) tr n

/-- The calls let on and not counted yet. -/
def uncounted (name : String) (tr : List (Event Resp)) (n : ℕ) : ℤ :=
  letOnCalls name tr n + checkedCalls name tr n

/-- A right password of an admin clears the counter. -/
def Succeeds (name : String) : Event Resp → Prop
  | .act _ (.redis (.delete ks)) _ => ks = [.adminSignInFailures name]
  | _ => False

/-! ### One step -/

/-- What a step does to the counter, the calls not counted and the checks of a username. -/
structure Tally where
  failures : ℤ
  letOn : ℤ
  checkedCalls : ℤ
  checked : ℤ

/-- A call that is let on now finds the counter and the calls not counted yet below the limit. -/
def Tally.below (t : Tally) : Prop := t.failures + t.letOn + t.checkedCalls < adminSignInTries

def tallyOf (name : String) (x : List (Event Resp) × Conf Resp AuthError Store) : Tally :=
  ⟨failures name x.2.store, letOnCalls name x.1 x.2.pool.length, checkedCalls name x.1 x.2.pool.length,
    checked name x.1⟩

/-- The steps: `kept` says that the counter is neither gone nor cleared, `below` that a call is let on
below the limit. -/
inductive TurnStep (kept below : Prop) (p q : Tally) : Prop where
  | falls (hfailures : q.failures ≤ p.failures) (hkept : kept → q.failures = p.failures)
      (hletOn : q.letOn ≤ p.letOn) (hcalls : q.checkedCalls = p.checkedCalls)
      (hchecked : q.checked = p.checked)
  | letsOn (hbelow : below) (hfailures : q.failures = p.failures) (hletOn : q.letOn = p.letOn + 1)
      (hcalls : q.checkedCalls = p.checkedCalls) (hchecked : q.checked = p.checked)
  | checks (hfailures : q.failures = p.failures) (hletOn : q.letOn = p.letOn - 1)
      (hcalls : q.checkedCalls = p.checkedCalls + 1) (hchecked : q.checked = p.checked + 1)
  | counts (hfailures : q.failures = p.failures + 1) (hletOn : q.letOn ≤ p.letOn)
      (hcalls : q.checkedCalls ≤ p.checkedCalls)
      (hone : q.letOn + q.checkedCalls = p.letOn + p.checkedCalls - 1)
      (hchecked : q.checked = p.checked)
  | succeeds (hnot : ¬ kept) (hfailures : q.failures ≤ p.failures) (hletOn : q.letOn = p.letOn)
      (hcalls : q.checkedCalls = p.checkedCalls - 1) (hchecked : q.checked = p.checked)

theorem TurnStep.same {kept below : Prop} {p q : Tally} (h : q = p) : TurnStep kept below p q := by
  rw [h]
  exact .falls le_rfl (fun _ => rfl) le_rfl rfl rfl

/-- A step of one call is a step of all calls together. -/
theorem TurnStep.among {kept below : Prop} {p q : Tally} (h : TurnStep kept below p q) (l c v : ℤ) :
    TurnStep kept below ⟨p.failures, l + p.letOn, c + p.checkedCalls, v + p.checked⟩
      ⟨q.failures, l + q.letOn, c + q.checkedCalls, v + q.checked⟩ := by
  cases h with
  | falls hfailures hkept hletOn hcalls hchecked =>
      exact .falls hfailures hkept (by dsimp only; omega) (by dsimp only; omega) (by dsimp only; omega)
  | letsOn hbelow hfailures hletOn hcalls hchecked =>
      exact .letsOn hbelow hfailures (by dsimp only; omega) (by dsimp only; omega)
        (by dsimp only; omega)
  | checks hfailures hletOn hcalls hchecked =>
      exact .checks hfailures (by dsimp only; omega) (by dsimp only; omega) (by dsimp only; omega)
  | counts hfailures hletOn hcalls hone hchecked =>
      exact .counts hfailures (by dsimp only; omega) (by dsimp only; omega) (by dsimp only; omega)
        (by dsimp only; omega)
  | succeeds hnot hfailures hletOn hcalls hchecked =>
      exact .succeeds hnot hfailures (by dsimp only; omega) (by dsimp only; omega)
        (by dsimp only; omega)

/-- The check of a password by a call that was let on for the username. -/
def checkOf (name : String) (q : Turn) : AuthCmd → ℤ
  | .outer (.verifyPassword _ _) => if q = .letOn name then 1 else 0
  | _ => 0

/-- The counter and one call. -/
def tallyOfCall (name : String) (s : Store) (q : Turn) (checks : ℤ) : Tally :=
  ⟨failures name s, isLetOn name q, isChecked name q, checks⟩

theorem failures_of_value {s s' : Store}
    (h : s'.redis.value (.adminSignInFailures name) = s.redis.value (.adminSignInFailures name)) :
    failures name s' = failures name s := by
  rw [failures, failures, h]

theorem failures_effect {w : Answers} {c : RedisCmd AuthKey AuthValue}
    (h : .adminSignInFailures name ∉ c.writes) :
    failures name (effect w (.redis c) s).2 = failures name s :=
  failures_of_value (value_redisExec_of_notMem h s.redis)

theorem notMem_one {k : AuthKey} (h : ¬ isFailures k) : .adminSignInFailures name ∉ [k] := by
  intro hmem
  rw [← List.mem_singleton.mp hmem] at h
  exact h trivial

/-- An increment counts one. -/
theorem failures_incr (w : Answers) :
    failures name (effect w (.redis (.incr (.adminSignInFailures name))) s).2 = failures name s + 1 := by
  have hvalue : (effect w (.redis (.incr (.adminSignInFailures name))) s).2.redis.value
      (.adminSignInFailures name) = some (counted (s.redis.keys (.adminSignInFailures name))).2.value :=
    Redis.value_put_self _ _ _
  rw [failures, failures, hvalue, Redis.value]
  rcases s.redis.keys (.adminSignInFailures name) with _ | ⟨v, d⟩
  · rfl
  · cases v <;> rfl

theorem tallyOfCall_same {q q' : Turn} (hfailures : failures name s' = failures name s)
    (hletOn : isLetOn name q' = isLetOn name q) (hchecked : isChecked name q' = isChecked name q) :
    tallyOfCall name s' q' 0 = tallyOfCall name s q 0 := by
  rw [tallyOfCall, tallyOfCall, hfailures, hletOn, hchecked]

theorem isLetOn_letOn (other : String) :
    isLetOn name (.letOn other) = if other = name then 1 else 0 := by
  unfold isLetOn
  congr 1
  exact propext ⟨Turn.letOn.inj, fun h => h ▸ rfl⟩

theorem isChecked_checked (other : String) :
    isChecked name (.checked other) = if other = name then 1 else 0 := by
  unfold isChecked
  congr 1
  exact propext ⟨Turn.checked.inj, fun h => h ▸ rfl⟩

section Effect

variable {w : Answers} {q : Turn} {kept below : Prop}

/-- The step of one call. -/
abbrev CallStep (kept below : Prop) (name : String) (w : Answers) (s : Store) (q : Turn)
    (cmd : AuthCmd) : Prop :=
  TurnStep kept below (tallyOfCall name s q 0)
    (tallyOfCall name (effect w cmd s).2 (turnNext q cmd (effect w cmd s).1) (checkOf name q cmd))

/-- Reading the counter may let the call on. -/
theorem callStep_get {k : AuthKey} (hallowed : turnAllowed q (.redis (.get k)))
    (hbelow : k = .adminSignInFailures name → failures name s < adminSignInTries → below) :
    CallStep kept below name w s q (.redis (.get k)) := by
  cases k with
  | adminSignInFailures other =>
      obtain rfl : q = .idle := hallowed
      show TurnStep kept below (tallyOfCall name s .idle 0)
        (tallyOfCall name s (if failures other s < adminSignInTries then .letOn other else .idle) 0)
      by_cases hlow : failures other s < adminSignInTries
      · rw [if_pos hlow]
        by_cases hname : other = name
        · subst hname
          refine .letsOn (hbelow rfl hlow) rfl ?_ rfl rfl
          show isLetOn other (.letOn other) = 0 + 1
          rw [isLetOn_letOn, if_pos rfl, zero_add]
        · apply TurnStep.same
          apply tallyOfCall_same rfl
          · rw [isLetOn_letOn, if_neg hname]
            rfl
          · rfl
      · rw [if_neg hlow]
        exact .same rfl
  | _ => exact .same rfl

/-- An increment counts the call. -/
theorem callStep_incr {k : AuthKey} (hallowed : turnAllowed q (.redis (.incr k))) :
    CallStep kept below name w s q (.redis (.incr k)) := by
  cases k with
  | adminSignInFailures other =>
      by_cases hname : other = name
      · subst hname
        have hcount : ((failures other (effect w (.redis (.incr (.adminSignInFailures other))) s).2 : ℕ)
            : ℤ) = failures other s + 1 := by
          rw [failures_incr]
          rfl
        rcases hallowed with rfl | rfl
        · refine .counts hcount ?_ ?_ ?_ rfl <;> simp [tallyOfCall, isLetOn, isChecked, turnNext]
        · refine .counts hcount ?_ ?_ ?_ rfl <;> simp [tallyOfCall, isLetOn, isChecked, turnNext]
      · have hsame : failures name (effect w (.redis (.incr (.adminSignInFailures other))) s).2 =
            failures name s := by
          apply failures_effect
          intro hmem
          exact hname (AuthKey.adminSignInFailures.inj (List.mem_singleton.mp hmem)).symm
        apply TurnStep.same
        rcases hallowed with rfl | rfl
        · exact tallyOfCall_same hsame (by rw [isLetOn_letOn, if_neg hname]; rfl) rfl
        · exact tallyOfCall_same hsame rfl (by rw [isChecked_checked, if_neg hname]; rfl)
  | _ => exact .same (tallyOfCall_same (failures_effect (notMem_one id)) rfl rfl)

/-- A deletion clears the counter, or other keys of a call that has no turn. -/
theorem callStep_delete {ks : List AuthKey} (hallowed : turnAllowed q (.redis (.delete ks)))
    (hkept : kept → ks ≠ [.adminSignInFailures name]) :
    CallStep kept below name w s q (.redis (.delete ks)) := by
  rcases hallowed with ⟨rfl, hothers⟩ | ⟨other, rfl, rfl⟩
  · apply TurnStep.same
    refine tallyOfCall_same (failures_effect ?_) rfl rfl
    intro hmem
    exact hothers _ hmem trivial
  · by_cases hname : other = name
    · subst hname
      have hzero : failures other (effect w (.redis (.delete [.adminSignInFailures other])) s).2 = 0 := by
        have hnone : (effect w (.redis (.delete [.adminSignInFailures other])) s).2.redis.value
            (.adminSignInFailures other) = none :=
          congrArg (Option.map Entry.value) (if_pos List.mem_cons_self)
        rw [failures, hnone]
        rfl
      refine .succeeds (fun hk => hkept hk rfl) ?_ rfl ?_ rfl
      · show ((failures other _ : ℕ) : ℤ) ≤ failures other s
        rw [hzero]
        exact Int.natCast_nonneg _
      · simp [tallyOfCall, isChecked, turnNext]
    · apply TurnStep.same
      refine tallyOfCall_same (failures_effect ?_) rfl ?_
      · intro hmem
        exact hname (AuthKey.adminSignInFailures.inj (List.mem_singleton.mp hmem)).symm
      · rw [isChecked_checked, if_neg hname]
        rfl

/-- The check of a password is counted for the username the call was let on for. -/
theorem callStep_outer (c : OuterCmd) : CallStep kept below name w s q (.outer c) := by
  cases c with
  | adminRow row =>
      show TurnStep kept below _
        (tallyOfCall name s (turnNext q (.outer (.adminRow row)) (w.outer (.adminRow row))) 0)
      cases w.outer (.adminRow row) with
      | ok found => exact .same rfl
      | error e =>
          cases q with
          | idle => exact .same rfl
          | checked other => exact .same rfl
          | letOn other =>
              refine .falls le_rfl (fun _ => rfl) ?_ rfl rfl
              show (0 : ℤ) ≤ isLetOn name (.letOn other)
              unfold isLetOn
              split <;> decide
  | verifyPassword hash password =>
      cases q with
      | idle => exact .same rfl
      | checked other => exact .same rfl
      | letOn other =>
          by_cases hname : other = name
          · subst hname
            refine .checks rfl ?_ ?_ ?_ <;>
              simp [tallyOfCall, isLetOn, isChecked, turnNext, checkOf]
          · have hcheck : checkOf name (.letOn other) (.outer (.verifyPassword hash password)) = 0 :=
              if_neg fun h => hname (Turn.letOn.inj h)
            apply TurnStep.same
            rw [hcheck]
            apply tallyOfCall_same rfl
            · rw [isLetOn_letOn, if_neg hname]
              rfl
            · show isChecked name (.checked other) = 0
              rw [isChecked_checked, if_neg hname]
  | _ => exact .same rfl

/-- **What a command of a call does to the counter and the call.** -/
theorem callStep {cmd : AuthCmd} (hallowed : turnAllowed q cmd)
    (hkept : ∀ ks, cmd = .redis (.delete ks) → kept → ks ≠ [.adminSignInFailures name])
    (hbelow : cmd = .redis (.get (.adminSignInFailures name)) → failures name s < adminSignInTries →
      below) :
    CallStep kept below name w s q cmd := by
  cases cmd with
  | redis c =>
      cases c with
      | get k => exact callStep_get hallowed fun hk => hbelow (by rw [hk])
      | ttl k => exact .same rfl
      | set k v ttlSeconds =>
          exact .same (tallyOfCall_same (failures_effect (notMem_one hallowed)) rfl rfl)
      | setIfAbsent k v ttlSeconds =>
          exact .same (tallyOfCall_same (failures_effect (notMem_one hallowed)) rfl rfl)
      | incr k => exact callStep_incr hallowed
      | expire k ttlSeconds =>
          exact .same (tallyOfCall_same (failures_of_value (value_expire _ _ _ _)) rfl rfl)
      | delete ks => exact callStep_delete hallowed (hkept ks rfl)
      | deleteIfValue k v =>
          exact .same (tallyOfCall_same (failures_effect (notMem_one hallowed)) rfl rfl)
      | take k => exact .same (tallyOfCall_same (failures_effect (notMem_one hallowed)) rfl rfl)
  | random => exact .same rfl
  | now => exact .same rfl
  | outer c => exact callStep_outer c
  | answer tokens => exact .same rfl

end Effect

/-! ### Every run -/

/-- **The condition.**  A call is let on for the username only while the counter it reads and the calls
not counted yet are below the limit. -/
def LetOnBelow (name : String) (tr : List (Event Resp)) (b : Conf Resp AuthError Store) :
    Event Resp → Prop
  | .act _ (.redis (.get (.adminSignInFailures other))) r =>
      other = name → countOf r < adminSignInTries →
        countOf r + uncounted name tr b.pool.length < adminSignInTries
  | _ => True

/-- The runs whose steps meet a condition. -/
abbrev TriesRun (cfg : Setup) (Ok : List (Event Resp) → Conf Resp AuthError Store → Event Resp → Prop)
    (s₀ : Store) : List (Event Resp) → Conf Resp AuthError Store → Prop :=
  (authMachine cfg fun _ => true).Run Ok (.start s₀)

/-- The counter is there and then not, or the event clears it. -/
def Interrupts (name : String) (s s' : Store) (e : Event Resp) : Prop :=
  Succeeds name e ∨ ((s.redis.keys (.adminSignInFailures name)).isSome = true ∧
    (s'.redis.keys (.adminSignInFailures name)).isSome = false)

/-- A step at which the username's counter neither goes nor is cleared. -/
def Unbroken (cfg : Setup) (Ok : List (Event Resp) → Conf Resp AuthError Store → Event Resp → Prop)
    (name : String) (x y : List (Event Resp) × Conf Resp AuthError Store) : Prop :=
  ∃ l e, (authMachine cfg fun _ => true).step x.2 l = some (e, y.2) ∧ Ok x.1 x.2 e ∧ y.1 = e :: x.1 ∧
    ¬ Interrupts name x.2.store y.2.store e

/-- A period in which the failure counter does not expire and no call succeeds. -/
abbrev Period (cfg : Setup) (Ok : List (Event Resp) → Conf Resp AuthError Store → Event Resp → Prop)
    (name : String) : List (Event Resp) × Conf Resp AuthError Store →
      List (Event Resp) × Conf Resp AuthError Store → Prop :=
  Relation.ReflTransGen (Unbroken cfg Ok name)

variable {Ok : List (Event Resp) → Conf Resp AuthError Store → Event Resp → Prop}
  {x y : List (Event Resp) × Conf Resp AuthError Store} {tr : List (Event Resp)}
  {b c : Conf Resp AuthError Store} {e : Event Resp}

theorem run_idle (h : TriesRun cfg Ok s₀ tr b) :
    (∀ pid, b.pool.length ≤ pid → turns tr pid = .idle) ∧
      ∀ pid cmd k, b.pool[pid]? = some (.call cmd k) → turnAllowed (turns tr pid) cmd := by
  have haccepted := Run.accepted (μ := turnMonitor) (F := fun _ => True) (fun call s p s' hbegin => by
    obtain ⟨rfl, _⟩ := Prod.mk.inj (Option.some.inj hbegin)
    exact accepts_authProgram call) (fun _ _ _ _ _ _ _ _ _ _ => trivial) h
  exact ⟨haccepted.1, fun pid cmd k hpool => (haccepted.2 pid _ hpool).1⟩

/-- The calls besides one. -/
theorem owed_split {w : Turn → ℤ} {n pid : ℕ} (hpid : pid < n) (cmd : AuthCmd) (r : Resp cmd) :
    ∃ others, owed turnMonitor .idle w tr n = others + w (turns tr pid) ∧
      owed turnMonitor .idle w (.act pid cmd r :: tr) n = others + w (turnNext (turns tr pid) cmd r) := by
  refine ⟨owed turnMonitor .idle w tr n - w (turns tr pid), by ring, ?_⟩
  exact owed_act hpid cmd r

theorem checked_act (pid : ℕ) (cmd : AuthCmd) (r : Resp cmd) :
    ((checked name (.act pid cmd r :: tr) : ℕ) : ℤ) =
      checked name tr + checkOf name (turns tr pid) cmd := by
  cases cmd with
  | outer c =>
      cases c with
      | verifyPassword hash password =>
          show ((checked name tr + (if _ then 1 else 0) : ℕ) : ℤ) = checked name tr + if _ then 1 else 0
          split <;> simp
      | _ => exact (add_zero _).symm
  | _ => exact (add_zero _).symm

/-- Time leaves the counter, and its expiry interrupts a period. -/
theorem failures_pass {o : Passing} (h : pass o s = some s') :
    failures name s' ≤ failures name s ∧
      (¬ Interrupts name s s' .outside → failures name s' = failures name s) := by
  cases o with
  | time milliseconds =>
      obtain rfl := Option.some.inj h
      exact ⟨le_rfl, fun _ => rfl⟩
  | expiry key =>
      obtain ⟨redis, hevict, rfl⟩ := Option.map_eq_some_iff.mp h
      obtain ⟨entry, d, hkey, _, _, rfl⟩ := evict_some hevict
      by_cases hname : AuthKey.adminSignInFailures name = key
      · subst hname
        have hzero : failures name { s with redis := s.redis.put (.adminSignInFailures name) none } = 0 := by
          rw [failures, Redis.value_put_self]
          rfl
        rw [hzero]
        refine ⟨Nat.zero_le _, fun hkept => absurd (Or.inr ⟨?_, ?_⟩) hkept⟩
        · rw [hkey]
          rfl
        · rw [Redis.keys_put_self]
          rfl
      · have hsame : failures name { s with redis := s.redis.put key none } = failures name s :=
          failures_of_value (Redis.value_put_of_ne hname none)
        exact ⟨hsame.le, fun _ => hsame⟩

/-- **What a step of a run does to the counter, the calls and the checks.** -/
theorem turnStep {l : (authMachine cfg fun _ => true).Label} (h : TriesRun cfg Ok s₀ tr b)
    (hs : (authMachine cfg fun _ => true).step b l = some (e, c)) (hok : LetOnBelow name tr b e) :
    TurnStep (¬ Interrupts name b.store c.store e) (tallyOf name (tr, b)).below
      (tallyOf name (tr, b)) (tallyOf name (e :: tr, c)) := by
  obtain ⟨hidle, hallowed⟩ := run_idle h
  rcases authStep_cases hs with ⟨o, ho, rfl, hpool⟩ | ⟨call, _, hstore, rfl, hpool⟩ |
    ⟨pid, w, cmd, k, r, hcall, hexec, rfl, hpool⟩
  · obtain ⟨hfalls, hkept⟩ : failures name c.store ≤ failures name b.store ∧ _ := failures_pass ho
    have hsame : tallyOf name (.outside :: tr, c) =
        { tallyOf name (tr, b) with failures := failures name c.store } := by
      rw [tallyOf, hpool]
      rfl
    rw [hsame]
    exact .falls (Int.ofNat_le.mpr hfalls) (fun hk => congrArg Nat.cast (hkept hk)) le_rfl rfl rfl
  · have hcalls : ∀ w : Turn → ℤ, w .idle = 0 →
        owed turnMonitor .idle w (.start b.pool.length :: tr) c.pool.length =
          owed turnMonitor .idle w tr b.pool.length := by
      intro w hw
      rw [hpool, List.length_append, List.length_singleton]
      exact owed_start (hidle _ le_rfl) hw
    apply TurnStep.same
    rw [tallyOf, tallyOf, letOnCalls, checkedCalls, letOnCalls, checkedCalls]
    rw [hcalls _ rfl, hcalls _ rfl, hstore]
    rfl
  · obtain ⟨_, rfl, hstore⟩ := exec_some hexec
    have hpid : pid < b.pool.length := (List.getElem?_eq_some_iff.mp hcall).1
    have hlen : c.pool.length = b.pool.length := by rw [hpool, List.length_set]
    obtain ⟨l, hl, hl'⟩ : ∃ l, letOnCalls name tr b.pool.length = l + isLetOn name (turns tr pid) ∧ _ :=
      owed_split hpid cmd (effect w cmd b.store).1
    obtain ⟨v, hv, hv'⟩ : ∃ v, checkedCalls name tr b.pool.length =
        v + isChecked name (turns tr pid) ∧ _ := owed_split hpid cmd (effect w cmd b.store).1
    have hstep : CallStep
        (¬ Interrupts name b.store c.store (.act pid cmd (effect w cmd b.store).1))
        (tallyOf name (tr, b)).below name w b.store (turns tr pid) cmd := by
      apply callStep (hallowed pid cmd k hcall)
      · rintro ks rfl hkept rfl
        exact hkept (.inl rfl)
      · rintro rfl hlow
        have hread : failures name b.store + uncounted name tr b.pool.length < adminSignInTries :=
          hok rfl hlow
        rwa [uncounted, ← add_assoc] at hread
    have hall := hstep.among l v (checked name tr)
    have hbefore : tallyOf name (tr, b) = ⟨failures name b.store, l + isLetOn name (turns tr pid),
        v + isChecked name (turns tr pid), checked name tr + 0⟩ := by
      rw [tallyOf, hl, hv, add_zero]
    have hafter : tallyOf name (.act pid cmd (effect w cmd b.store).1 :: tr, c) =
        ⟨failures name c.store, l + isLetOn name (turnNext (turns tr pid) cmd (effect w cmd b.store).1),
          v + isChecked name (turnNext (turns tr pid) cmd (effect w cmd b.store).1),
          checked name tr + checkOf name (turns tr pid) cmd⟩ := by
      rw [tallyOf, hlen, checked_act, letOnCalls, checkedCalls, hl', hv']
    rw [hafter]
    rw [hstore] at hall ⊢
    exact hbefore ▸ hall

/-- At most the limit with the calls not counted yet, or nothing is let on and the counter is above. -/
def WithinLimit (t : Tally) : Prop :=
  t.failures + t.letOn + t.checkedCalls ≤ adminSignInTries

def AboveLimit (t : Tally) : Prop :=
  adminSignInTries < t.failures ∧ t.letOn = 0 ∧ t.checkedCalls = 0

theorem TurnStep.withinLimit {kept : Prop} {p q : Tally} (h : TurnStep kept p.below p q)
    (hp : WithinLimit p) : WithinLimit q := by
  unfold WithinLimit Tally.below at *
  cases h <;> omega

/-- **In a period the checks are paid for by the counter and the calls not counted yet.** -/
theorem TurnStep.paid {kept : Prop} {p q : Tally} (h : TurnStep kept p.below p q) (hkept : kept) :
    q.checked - p.checked ≤ (q.failures + q.checkedCalls) - (p.failures + p.checkedCalls) := by
  cases h with
  | falls _ hsame _ _ _ =>
      have hfailures := hsame hkept
      omega
  | succeeds hnot _ _ _ _ => exact absurd hkept hnot
  | _ => omega

/-- Above the limit nothing is let on and nothing is checked. -/
theorem TurnStep.aboveLimit {kept : Prop} {p q : Tally} (h : TurnStep kept p.below p q) (hkept : kept)
    (hletOn : 0 ≤ q.letOn) (hcalls : 0 ≤ q.checkedCalls) (hp : AboveLimit p) :
    AboveLimit q ∧ q.checked = p.checked := by
  unfold AboveLimit Tally.below at *
  cases h with
  | falls _ hsame _ _ _ =>
      have hfailures := hsame hkept
      omega
  | succeeds hnot _ _ _ _ => exact absurd hkept hnot
  | _ => omega

theorem owed_nonneg {w : Turn → ℤ} (hw : ∀ q, 0 ≤ w q) (tr : List (Event Resp)) (n : ℕ) :
    0 ≤ owed turnMonitor .idle w tr n := Finset.sum_nonneg fun _ _ => hw _

theorem tallyOf_nonneg (x : List (Event Resp) × Conf Resp AuthError Store) :
    0 ≤ (tallyOf name x).letOn ∧ 0 ≤ (tallyOf name x).checkedCalls := by
  constructor
  · apply owed_nonneg
    intro q
    unfold isLetOn
    split <;> decide
  · apply owed_nonneg
    intro q
    unfold isChecked
    split <;> decide

/-- What holds at every point of a run. -/
theorem run_limit (h : TriesRun cfg (LetOnBelow name) s₀ tr b) :
    WithinLimit (tallyOf name (tr, b)) ∨ AboveLimit (tallyOf name (tr, b)) := by
  refine Machine.Run.invariant
    (fun tr b => WithinLimit (tallyOf name (tr, b)) ∨ AboveLimit (tallyOf name (tr, b))) ?_ ?_ h
  · have hnothing : tallyOf name ([], Conf.start s₀) = ⟨failures name s₀, 0, 0, 0⟩ := rfl
    rw [hnothing]
    unfold WithinLimit AboveLimit
    dsimp only
    omega
  · intro tr b l e c hrun hlimit hs hok
    have hstep := turnStep hrun hs hok
    rcases hlimit with hwithin | habove
    · exact .inl (hstep.withinLimit hwithin)
    · obtain ⟨hletOn, hcalls⟩ : 0 ≤ (tallyOf name (e :: tr, c)).letOn ∧ _ := tallyOf_nonneg _
      unfold WithinLimit AboveLimit Tally.below at *
      cases hstep <;> omega

/-- **The admin's password, under the condition.**  In a run in which a call for the username is let on
only below the limit, calls not counted yet included, at most `adminSignInTries` passwords are checked
for it in any period in which its failure counter does not expire and no call for it succeeds. -/
theorem tries_bounded (h : TriesRun cfg (LetOnBelow name) s₀ x.1 x.2)
    (hxy : Period cfg (LetOnBelow name) name x y) :
    checked name y.1 ≤ checked name x.1 + adminSignInTries := by
  have hpaid : TriesRun cfg (LetOnBelow name) s₀ y.1 y.2 ∧
      (tallyOf name y).checked - (tallyOf name x).checked ≤
        ((tallyOf name y).failures + (tallyOf name y).checkedCalls) -
          ((tallyOf name x).failures + (tallyOf name x).checkedCalls) ∧
      (WithinLimit (tallyOf name x) → WithinLimit (tallyOf name y)) ∧
      (AboveLimit (tallyOf name x) →
        AboveLimit (tallyOf name y) ∧ (tallyOf name y).checked = (tallyOf name x).checked) := by
    induction hxy with
    | refl => exact ⟨h, by omega, id, fun habove => ⟨habove, rfl⟩⟩
    | @tail y z _ hnext ih =>
        obtain ⟨l, e, hs, hok, htr, hkept⟩ := hnext
        obtain ⟨hrun, hchecks, hwithin, habove⟩ := ih
        have hstep : TurnStep (¬ Interrupts name y.2.store z.2.store e) (tallyOf name y).below
            (tallyOf name y) (tallyOf name (e :: y.1, z.2)) := turnStep hrun hs hok
        obtain ⟨hletOn, hcalls⟩ : 0 ≤ (tallyOf name (e :: y.1, z.2)).letOn ∧ _ := tallyOf_nonneg _
        have hz : z = (e :: y.1, z.2) := by rw [← htr]
        rw [hz]
        refine ⟨.snoc hrun hs hok, ?_, fun hx => hstep.withinLimit (hwithin hx), fun hx => ?_⟩
        · have hone := hstep.paid hkept
          omega
        · obtain ⟨hnow, hsame⟩ := hstep.aboveLimit hkept hletOn hcalls (habove hx).1
          exact ⟨hnow, hsame.trans (habove hx).2⟩
  obtain ⟨_, hchecks, hwithin, habove⟩ := hpaid
  have hx : 0 ≤ (tallyOf name x).failures ∧ 0 ≤ (tallyOf name x).checkedCalls :=
    ⟨Int.natCast_nonneg _, (tallyOf_nonneg x).2⟩
  have hy : 0 ≤ (tallyOf name y).letOn := (tallyOf_nonneg y).1
  have hgoal : (tallyOf name y).checked ≤ (tallyOf name x).checked + adminSignInTries := by
    rcases run_limit h with hlimit | hlimit
    · have hend := hwithin hlimit
      unfold WithinLimit at hend
      omega
    · have hsame := (habove hlimit).2
      omega
  exact Int.ofNat_le.mp hgoal

/-! ### Runs -/

instance (name : String) (s s' : Store) (e : Event Resp) : Decidable (Interrupts name s s' e) :=
  have : Decidable (Succeeds name e) :=
    match e with
    | .act _ (.redis (.delete ks)) _ => inferInstanceAs (Decidable (ks = [.adminSignInFailures name]))
    | .act _ (.redis (.get _)) _ => isFalse id
    | .act _ (.redis (.ttl _)) _ => isFalse id
    | .act _ (.redis (.set _ _ _)) _ => isFalse id
    | .act _ (.redis (.setIfAbsent _ _ _)) _ => isFalse id
    | .act _ (.redis (.incr _)) _ => isFalse id
    | .act _ (.redis (.expire _ _)) _ => isFalse id
    | .act _ (.redis (.deleteIfValue _ _)) _ => isFalse id
    | .act _ (.redis (.take _)) _ => isFalse id
    | .act _ .random _ => isFalse id
    | .act _ .now _ => isFalse id
    | .act _ (.outer _) _ => isFalse id
    | .act _ (.answer _) _ => isFalse id
    | .outside => isFalse id
    | .start _ => isFalse id
  inferInstanceAs (Decidable (Succeeds name e ∨ _))

instance (name : String) (tr : List (Event Resp)) (b : Conf Resp AuthError Store) (e : Event Resp) :
    Decidable (LetOnBelow name tr b e) :=
  match e with
  | .act _ (.redis (.get (.adminSignInFailures other))) r =>
      inferInstanceAs (Decidable (other = name → countOf r < adminSignInTries →
        countOf r + uncounted name tr b.pool.length < adminSignInTries))
  | .act _ (.redis (.get (.registration _))) _ => isTrue trivial
  | .act _ (.redis (.get (.registrationToken _))) _ => isTrue trivial
  | .act _ (.redis (.get (.registrationLock _))) _ => isTrue trivial
  | .act _ (.redis (.get (.registrationCooldown _))) _ => isTrue trivial
  | .act _ (.redis (.get (.registrationSends _))) _ => isTrue trivial
  | .act _ (.redis (.get (.refreshToken _))) _ => isTrue trivial
  | .act _ (.redis (.get (.activeSession _))) _ => isTrue trivial
  | .act _ (.redis (.ttl _)) _ => isTrue trivial
  | .act _ (.redis (.set _ _ _)) _ => isTrue trivial
  | .act _ (.redis (.setIfAbsent _ _ _)) _ => isTrue trivial
  | .act _ (.redis (.incr _)) _ => isTrue trivial
  | .act _ (.redis (.expire _ _)) _ => isTrue trivial
  | .act _ (.redis (.delete _)) _ => isTrue trivial
  | .act _ (.redis (.deleteIfValue _ _)) _ => isTrue trivial
  | .act _ (.redis (.take _)) _ => isTrue trivial
  | .act _ .random _ => isTrue trivial
  | .act _ .now _ => isTrue trivial
  | .act _ (.outer _) _ => isTrue trivial
  | .act _ (.answer _) _ => isTrue trivial
  | .outside => isTrue trivial
  | .start _ => isTrue trivial

/-- A schedule replayed within a period. -/
def replayed (cfg : Setup) (Ok : List (Event Resp) → Conf Resp AuthError Store → Event Resp → Prop)
    [∀ tr a e, Decidable (Ok tr a e)] (name : String)
    (x : List (Event Resp) × Conf Resp AuthError Store) :
    List (authMachine cfg fun _ => true).Label → Option (List (Event Resp) × Conf Resp AuthError Store)
  | [] => some x
  | l :: ls =>
      match (authMachine cfg fun _ => true).step x.2 l with
      | none => none
      | some (e, b) =>
          if Ok x.1 x.2 e ∧ ¬ Interrupts name x.2.store b.store e then
            replayed cfg Ok name (e :: x.1, b) ls
          else none

theorem replayed_period [∀ tr a e, Decidable (Ok tr a e)]
    {ls : List (authMachine cfg fun _ => true).Label} (h : replayed cfg Ok name x ls = some y) :
    Period cfg Ok name x y := by
  induction ls generalizing x with
  | nil =>
      cases h
      exact .refl
  | cons l ls ih =>
      simp only [replayed] at h
      split at h
      · cases h
      · rename_i e b hs
        split at h
        · rename_i hok
          exact (ih h).head ⟨l, e, hs, hok.1, rfl, hok.2⟩
        · cases h

/-- A username whose row has a password, and a wrong guess. -/
def guessing : Answers where
  random := 0
  outer
    | .adminRow _ => .ok (some ⟨1, some "hash"⟩)
    | .verifyPassword _ _ => .ok false
    | _ => .error .unavailable

def lowSetup : Setup := ⟨true, fun _ => none, fun phone code => phone ++ code, id⟩

def noFailures : Store := ⟨⟨0, fun _ => none⟩, []⟩

/-- Five wrong guesses one after another, and a sixth that is refused. -/
def oneByOne : List (authMachine lowSetup fun _ => true).Label :=
  (List.range 5).flatMap (fun pid =>
    .start (.adminSignIn "root" "guess") :: List.replicate (if pid = 0 then 5 else 4) (.act pid guessing)) ++
  [.start (.adminSignIn "root" "guess"), .act 5 guessing]

theorem tries_bounded_oneByOne :
    ∃ y, replayed lowSetup (LetOnBelow "root") "root" ([], .start noFailures) oneByOne = some y ∧
      checked "root" y.1 = 5 ∧
      checked "root" y.1 ≤ checked "root" ([] : List (Event Resp)) + adminSignInTries := by
  have hfive : (replayed lowSetup (LetOnBelow "root") "root" ([], .start noFailures) oneByOne).map
      (fun y => checked "root" y.1) = some 5 := by decide
  obtain ⟨y, hplay, hchecked⟩ := Option.map_eq_some_iff.mp hfive
  exact ⟨y, hplay, hchecked, tries_bounded .nil (replayed_period hplay)⟩

/-- Six calls read the counter, then each checks its password. -/
def together : List (authMachine lowSetup fun _ => true).Label :=
  List.replicate 6 (.start (.adminSignIn "root" "guess")) ++
    (List.range 6).map (fun pid => .act pid guessing) ++
    (List.range 6).flatMap fun pid => List.replicate 2 (.act pid guessing)

/-- **The limit does not hold of calls side by side.** -/
theorem not_tries_bounded :
    ¬ ∀ (cfg : Setup) (name : String) (s₀ : Store)
        (x y : List (Event Resp) × Conf Resp AuthError Store),
        TriesRun cfg (fun _ _ _ => True) s₀ x.1 x.2 → Period cfg (fun _ _ _ => True) name x y →
          checked name y.1 ≤ checked name x.1 + adminSignInTries := by
  intro hall
  have hsix : (replayed lowSetup (fun _ _ _ => True) "root" ([], .start noFailures) together).map
      (fun y => checked "root" y.1) = some 6 := by decide
  obtain ⟨y, hplay, hchecked⟩ := Option.map_eq_some_iff.mp hsix
  have hbound := hall lowSetup "root" noFailures ([], .start noFailures) y .nil (replayed_period hplay)
  rw [hchecked] at hbound
  exact absurd hbound (by decide)

end TransportBackend.AdminTries
