import TransportBackend.SmsMonitor

/-!
# The codes sent to a number

Any number of requests for a code and of checks of one, for one number, at any times.

* `Codes` — what a run says of the number's codes: the last one issued, how often it was accepted and
  how many wrong ones were compared with it, and how many there were of each in all;
* `Desk`, `DeskMove` — the holder's phase, the keys of the number, and what one step does to them;
* `Matches` — **what is kept or held of a code is the last one issued**, with its wrong tries;
* `Backed` — the sends of a period are in the counter, which outlasts the period;
* `codes_bounded` — **a code is accepted at most once, live, with tries left and while it is the last;
  at most `maxSends` are issued in any hour without a sign-in**, in a run in which every renewal finds
  the counter of the sends;
* `not_codes_bounded` — and four codes within an hour when the counter goes before it is renewed.
-/

namespace TransportBackend.SmsCodes

open TransportBackend.AtomicProgram
open TransportBackend.InterleavedRun
open TransportBackend.MonitoredProgram
open TransportBackend.RedisStore
open TransportBackend.RegistrationStore
open TransportBackend.RegistrationService
open TransportBackend.RegistrationFrame
open TransportBackend.SignInRun
open TransportBackend.SmsMonitor

variable {cfg : Setup} {p : String} {s s' s₀ : Store}

/-! ### What a run says of the codes -/

/-- The last code issued, how often it was accepted and the wrong codes compared with it; and the
codes issued, accepted and wrong in all. -/
structure Codes where
  last : Option PendingOtp
  accepted : ℕ
  wrong : ℕ
  issues : ℕ
  accepts : ℕ
  wrongs : ℕ
  deriving DecidableEq

namespace Codes

def start : Codes := ⟨none, 0, 0, 0, 0, 0⟩

def issue (c : Codes) (pending : PendingOtp) : Codes :=
  ⟨some pending, 0, 0, c.issues + 1, c.accepts, c.wrongs⟩

def miss (c : Codes) : Codes := { c with wrong := c.wrong + 1, wrongs := c.wrongs + 1 }

def accept (c : Codes) : Codes := { c with accepted := c.accepted + 1, accepts := c.accepts + 1 }

end Codes

/-- A new code kept is issued, the keys deleted together are a code accepted, and the clock read again
after a comparison is a wrong one. -/
def codesNext (p : String) (q : Phase) : AuthCmd → Codes → Codes
  | .redis (.set (.registration phone) (.pending pending) _), c =>
      if phone = p ∧ pending.attempts = 0 then c.issue pending else c
  | .redis (.delete ks), c => if ks = [.registration p, .registrationSends p] then c.accept else c
  | .now, c =>
      match q with
      | .compared _ _ => c.miss
      | _ => c
  | _, c => c

/-- How far each call has come. -/
def phases (p : String) (tr : List (Event Resp)) : ℕ → Phase := stateOf (phaseMonitor p) .idle tr

def codes (p : String) : List (Event Resp) → Codes
  | [] => .start
  | .act pid cmd _ :: tr => codesNext p (phases p tr pid) cmd (codes p tr)
  | _ :: tr => codes p tr

theorem phases_act (tr : List (Event Resp)) (pid : ℕ) (cmd : AuthCmd) (r : Resp cmd) :
    phases p (.act pid cmd r :: tr) =
      Function.update (phases p tr) pid (phaseNext p (phases p tr pid) cmd r) :=
  stateOf_act tr pid cmd r

theorem codesNext_other {q : Phase} {cmd : AuthCmd} (hkeys : ∀ k ∈ namedBy cmd, ¬ Own p k)
    (hnow : cmd = .now → q.steady) (c : Codes) : codesNext p q cmd c = c := by
  cases cmd with
  | redis cmd =>
      cases cmd with
      | set k v ttlSeconds =>
          have hk : ¬ Own p k := hkeys k List.mem_cons_self
          cases k with
          | registration phone => cases v <;> first | rfl | exact if_neg fun h => hk h.1
          | _ => rfl
      | delete ks =>
          refine if_neg fun h => hkeys (.registration p) ?_ rfl
          show AuthKey.registration p ∈ ks
          rw [h]
          exact List.mem_cons_self
      | _ => rfl
  | now =>
      have hq := hnow rfl
      cases q <;> first | rfl | exact hq.elim
  | _ => rfl

/-! ### The desk -/

/-- The phase of the lock's holder, the number's code and the counter of its sends, the time, and what
the run says of the codes. -/
structure Desk where
  phase : Phase
  pending : Option PendingOtp
  sends : Option (Entry AuthValue)
  clock : ℕ
  codes : Codes

/-- A phase from which the holder may give up. -/
def Phase.plain : Phase → Prop
  | .idle => True
  | .held => True
  | .may => True
  | .read _ => True
  | _ => False

/-- **The moves of the desk.** -/
inductive DeskMove : Desk → Desk → Prop where
  | passes {d : Desk} {pending : Option PendingOtp} {sends : Option (Entry AuthValue)} {clock : ℕ}
      (hpending : pending = d.pending ∨ pending = none)
      (hsends : sends = d.sends ∨
        sends = none ∧ ∃ e t, d.sends = some e ∧ e.deadline = some t ∧ t ≤ d.clock)
      (hclock : d.clock ≤ clock) : DeskMove d ⟨d.phase, pending, sends, clock, d.codes⟩
  | settles {d : Desk} {q : Phase} {pending : Option PendingOtp} (hplain : Phase.plain d.phase)
      (hq : q = .idle ∨ q = .held) (hpending : pending = d.pending ∨ pending = none) :
      DeskMove d ⟨q, pending, d.sends, d.clock, d.codes⟩
  | reads {d : Desk} {pending : PendingOtp} (hphase : d.phase = .held)
      (hpending : d.pending = some pending) :
      DeskMove d ⟨.read pending, d.pending, d.sends, d.clock, d.codes⟩
  | looks {d : Desk} {pending : PendingOtp} {time : ℕ} (hphase : d.phase = .read pending)
      (hlive : time < pending.expiresAt ∧ pending.attempts < maxAttempts) :
      DeskMove d ⟨.compared pending time, d.pending, d.sends, d.clock, d.codes⟩
  | may {d : Desk} (hphase : d.phase = .held) (hfew : countOf (d.sends.map Entry.value) < maxSends) :
      DeskMove d ⟨.may, d.pending, d.sends, d.clock, d.codes⟩
  | issues {d : Desk} {pending : PendingOtp} (hphase : d.phase = .may) (hnew : pending.attempts = 0) :
      DeskMove d ⟨.issued, some pending, d.sends, d.clock, d.codes.issue pending⟩
  | counts {d : Desk} (hphase : d.phase = .issued) :
      DeskMove d ⟨.counted, d.pending, some (counted d.sends).2, d.clock, d.codes⟩
  | renews {d : Desk} {e : Entry AuthValue} (hphase : d.phase = .held ∨ d.phase = .counted)
      (hsends : d.sends = some e) :
      DeskMove d ⟨.held, d.pending, some { e with deadline := some (d.clock + sendsBlockSeconds * 1000) },
        d.clock, d.codes⟩
  | misses {d : Desk} {pending : PendingOtp} {time : ℕ} (hphase : d.phase = .compared pending time) :
      DeskMove d ⟨.wrong pending, d.pending, d.sends, d.clock, d.codes.miss⟩
  | resaves {d : Desk} {pending : PendingOtp} (hphase : d.phase = .wrong pending) :
      DeskMove d ⟨.held, some (missed pending), d.sends, d.clock, d.codes⟩
  | accepts {d : Desk} {pending : PendingOtp} {time : ℕ} (hphase : d.phase = .compared pending time) :
      DeskMove d ⟨.held, none, none, d.clock, d.codes.accept⟩

theorem DeskMove.same (d : Desk) : DeskMove d d := .passes (.inl rfl) (.inl rfl) le_rfl

/-! ### What is kept of a code -/

/-- What is kept of a code is the last one issued, not accepted, with its wrong tries. -/
structure Matches (pending : PendingOtp) (c : Codes) : Prop where
  last : c.last = some { pending with attempts := 0 }
  accepted : c.accepted = 0
  attempts : pending.attempts = c.wrong

/-- A wrong try is counted before it is kept. -/
def due : Phase → PendingOtp → PendingOtp
  | .wrong _, pending => missed pending
  | _, pending => pending

/-- What the holder has read. -/
def inHand : Phase → Option PendingOtp
  | .read pending => some pending
  | .compared pending _ => some pending
  | .wrong pending => some pending
  | _ => none

/-- What is kept or in hand of a code is the last one issued; what is compared is live and has tries
left. -/
structure CodeOk (d : Desk) : Prop where
  known : ∀ pending, d.pending = some pending ∨ inHand d.phase = some pending →
    Matches (due d.phase pending) d.codes
  live : ∀ pending time, d.phase = .compared pending time →
    time < pending.expiresAt ∧ pending.attempts < maxAttempts
  wrong : d.codes.wrong ≤ maxAttempts

theorem due_plain {q : Phase} (hq : Phase.plain q) (pending : PendingOtp) : due q pending = pending := by
  cases q <;> first | rfl | exact hq.elim

theorem kept_or_none {o o' : Option PendingOtp} (h : o' = o ∨ o' = none) {pending : PendingOtp}
    (ho : o' = some pending) : o = some pending := by
  rcases h with rfl | rfl
  · exact ho
  · cases ho

theorem DeskMove.codeOk {d d' : Desk} (h : DeskMove d d') (hd : CodeOk d) : CodeOk d' := by
  obtain ⟨hknown, hlive, hwrong⟩ := hd
  cases h with
  | passes hpending hsends hclock =>
      exact ⟨fun pending hp => hknown pending (hp.imp_left (kept_or_none hpending)), hlive, hwrong⟩
  | settles hplain hq hpending =>
      refine ⟨fun pending hp => ?_, fun pending time hq' => ?_, hwrong⟩
      · have hkept : d.pending = some pending := by
          rcases hp with hp | hp
          · exact kept_or_none hpending hp
          · rcases hq with rfl | rfl <;> cases hp
        have hmatches := hknown pending (.inl hkept)
        rw [due_plain hplain] at hmatches
        rcases hq with rfl | rfl <;> exact hmatches
      · change _ = _ at hq'
        rcases hq with rfl | rfl <;> cases hq'
  | @reads found hphase hpending =>
      refine ⟨fun pending hp => ?_, fun _ _ hq' => (by cases hq'), hwrong⟩
      have hkept : d.pending = some pending := hp.elim id fun hp => hpending.trans hp
      have hmatches := hknown pending (.inl hkept)
      rw [hphase] at hmatches
      exact hmatches
  | @looks found time hphase hfound =>
      refine ⟨fun pending hp => ?_, fun pending time' hq' => ?_, hwrong⟩
      · have hmatches := hknown pending (hp.imp_right fun hp => by rw [hphase]; exact hp)
        rw [hphase] at hmatches
        exact hmatches
      · cases hq'
        exact hfound
  | may hphase hfew =>
      refine ⟨fun pending hp => ?_, fun _ _ hq' => (by cases hq'), hwrong⟩
      have hkept : d.pending = some pending := hp.elim id fun hp => by cases hp
      have hmatches := hknown pending (.inl hkept)
      rw [hphase] at hmatches
      exact hmatches
  | @issues issued hphase hnew =>
      refine ⟨fun pending hp => ?_, fun _ _ hq' => (by cases hq'), Nat.zero_le _⟩
      have hissued : issued = pending := hp.elim Option.some.inj fun hp => by cases hp
      subst hissued
      exact ⟨by rw [← hnew]; rfl, rfl, hnew⟩
  | counts hphase =>
      refine ⟨fun pending hp => ?_, fun _ _ hq' => (by cases hq'), hwrong⟩
      have hkept : d.pending = some pending := hp.elim id fun hp => by cases hp
      have hmatches := hknown pending (.inl hkept)
      rw [hphase] at hmatches
      exact hmatches
  | renews hphase hsends =>
      refine ⟨fun pending hp => ?_, fun _ _ hq' => (by cases hq'), hwrong⟩
      have hkept : d.pending = some pending := hp.elim id fun hp => by cases hp
      have hmatches := hknown pending (.inl hkept)
      rcases hphase with hphase | hphase <;> rw [hphase] at hmatches <;> exact hmatches
  | @misses compared time hphase =>
      obtain ⟨_, hfew⟩ := hlive compared time hphase
      have hcompared := hknown compared (.inr (by rw [hphase]; rfl))
      rw [hphase] at hcompared
      refine ⟨fun pending hp => ?_, fun _ _ hq' => (by cases hq'), ?_⟩
      · have hmatches := hknown pending (hp.imp_right fun hp => by rw [hphase]; exact hp)
        rw [hphase] at hmatches
        exact ⟨hmatches.last, hmatches.accepted, congrArg (· + 1) hmatches.attempts⟩
      · have hattempts : compared.attempts = d.codes.wrong := hcompared.attempts
        show d.codes.wrong + 1 ≤ maxAttempts
        omega
  | @resaves wrong hphase =>
      refine ⟨fun pending hp => ?_, fun _ _ hq' => (by cases hq'), hwrong⟩
      have hresaved : missed wrong = pending := hp.elim Option.some.inj fun hp => by cases hp
      have hmatches := hknown wrong (.inr (by rw [hphase]; rfl))
      rw [hphase] at hmatches
      rw [← hresaved]
      exact hmatches
  | accepts hphase =>
      refine ⟨fun pending hp => ?_, fun _ _ hq' => (by cases hq'), hwrong⟩
      rcases hp with hp | hp <;> cases hp

/-! ### A period -/

/-- The codes sent since are in the counter, which outlasts the period. -/
def Backed (ends n : ℕ) (sends : Option (Entry AuthValue)) : Prop :=
  n = 0 ∨ ∃ e t, sends = some e ∧ e.deadline = some t ∧ ends ≤ t ∧ n ≤ Counter.toCount e.value

/-- The counter of the sends while `n` codes were issued since the period began. -/
def SendsOk (ends n : ℕ) (d : Desk) : Prop :=
  match d.phase with
  | .may => n + 1 ≤ maxSends ∧ Backed ends n d.sends
  | .issued => n ≤ maxSends ∧ Backed ends (n - 1) d.sends
  | .counted => n ≤ maxSends ∧ (n = 1 ∨ Backed ends n d.sends) ∧
      ∀ e, d.sends = some e → n ≤ Counter.toCount e.value
  | _ => n ≤ maxSends ∧ Backed ends n d.sends

theorem toCount_value (v : AuthValue) : Counter.toCount v = countOf (some v) := by cases v <;> rfl

theorem Backed.mono {ends n n' : ℕ} {sends : Option (Entry AuthValue)} (hn : n' ≤ n)
    (h : Backed ends n sends) : Backed ends n' sends := by
  rcases h with rfl | ⟨e, t, hsends, ht, hends, hcount⟩
  · exact .inl (Nat.le_zero.mp hn)
  · exact .inr ⟨e, t, hsends, ht, hends, hn.trans hcount⟩

/-- A counter that outlasts the period does not go within it. -/
theorem Backed.passes {ends n clock : ℕ} {sends sends' : Option (Entry AuthValue)}
    (h : Backed ends n sends) (hclock : clock < ends)
    (hsends : sends' = sends ∨
      sends' = none ∧ ∃ e t, sends = some e ∧ e.deadline = some t ∧ t ≤ clock) :
    Backed ends n sends' := by
  rcases hsends with rfl | ⟨_, e, t, he, ht, hdue⟩
  · exact h
  · rcases h with hn | ⟨e', t', he', ht', hends, _⟩
    · exact .inl hn
    · obtain rfl := Option.some.inj (he.symm.trans he')
      obtain rfl := Option.some.inj (ht.symm.trans ht')
      omega

/-- A renewed counter outlasts the period. -/
theorem Backed.renews {ends n clock : ℕ} {e : Entry AuthValue} (hcount : n ≤ Counter.toCount e.value)
    (hends : ends ≤ clock) : Backed ends n (some { e with deadline := some clock }) :=
  .inr ⟨_, clock, rfl, rfl, hends, hcount⟩

theorem counted_count (sends : Option (Entry AuthValue)) :
    Counter.toCount (counted sends).2.value = countOf (sends.map Entry.value) + 1 := by
  rcases sends with _ | ⟨v, t⟩
  · rfl
  · cases v <;> rfl

/-- What a period keeps: the sends are counted, and each code has its wrong tries. -/
structure PeriodOk (begin : Codes) (ends : ℕ) (d : Desk) : Prop where
  begun : begin.issues ≤ d.codes.issues
  sends : SendsOk ends (d.codes.issues - begin.issues) d
  wrongs : d.codes.wrongs + maxAttempts ≤
    begin.wrongs + maxAttempts * (d.codes.issues - begin.issues + 1) + d.codes.wrong

theorem sendsOk_of {ends n : ℕ} {d : Desk} (hn : n ≤ maxSends) (hbacked : Backed ends n d.sends)
    (hmay : d.phase ≠ .may) : SendsOk ends n d := by
  unfold SendsOk
  split
  · rename_i hphase
    exact absurd hphase hmay
  · exact ⟨hn, hbacked.mono (Nat.sub_le n 1)⟩
  · refine ⟨hn, .inr hbacked, fun e he => ?_⟩
    rcases hbacked with rfl | ⟨e', t, he', _, _, hcount⟩
    · exact Nat.zero_le _
    · rwa [Option.some.inj (he.symm.trans he')]
  · exact ⟨hn, hbacked⟩

theorem SendsOk.backed {ends n : ℕ} {d : Desk} (h : SendsOk ends n d) (hissued : d.phase ≠ .issued)
    (hcounted : d.phase ≠ .counted) : n ≤ maxSends ∧ Backed ends n d.sends := by
  unfold SendsOk at h
  split at h
  · exact ⟨(Nat.le_succ n).trans h.1, h.2⟩
  · rename_i hphase
    exact absurd hphase hissued
  · rename_i hphase
    exact absurd hphase hcounted
  · exact h

/-- **One move within a period.** -/
theorem DeskMove.periodOk {d d' : Desk} {begin : Codes} {ends : ℕ} (h : DeskMove d d') (hd : CodeOk d)
    (hp : PeriodOk begin ends d) (hclock : d.clock < ends)
    (hends : ends ≤ d.clock + sendsBlockSeconds * 1000) (haccepts : d'.codes.accepts = d.codes.accepts) :
    PeriodOk begin ends d' := by
  obtain ⟨hbegun, hsends, hwrongs⟩ := hp
  cases h with
  | @passes pending sends clock hpending hgone hlater =>
      refine ⟨hbegun, ?_, hwrongs⟩
      have hkeep : ∀ n, Backed ends n d.sends → Backed ends n sends := fun n h => h.passes hclock hgone
      unfold SendsOk at hsends ⊢
      dsimp only
      cases hphase : d.phase with
      | counted =>
          rw [hphase] at hsends
          refine ⟨hsends.1, hsends.2.1.imp_right (hkeep _), fun e he => ?_⟩
          rcases hgone with rfl | ⟨rfl, _⟩
          · exact hsends.2.2 e he
          · cases he
      | _ =>
          rw [hphase] at hsends
          exact ⟨hsends.1, hkeep _ hsends.2⟩
  | settles hplain hq hpending =>
      refine ⟨hbegun, ?_, hwrongs⟩
      obtain ⟨hn, hbacked⟩ := hsends.backed (fun h => by rw [h] at hplain; exact hplain)
        (fun h => by rw [h] at hplain; exact hplain)
      rcases hq with rfl | rfl <;> exact ⟨hn, hbacked⟩
  | reads hphase hpending =>
      rw [SendsOk, hphase] at hsends
      exact ⟨hbegun, hsends, hwrongs⟩
  | looks hphase hlive =>
      rw [SendsOk, hphase] at hsends
      exact ⟨hbegun, hsends, hwrongs⟩
  | may hphase hfew =>
      rw [SendsOk, hphase] at hsends
      refine ⟨hbegun, ⟨?_, hsends.2⟩, hwrongs⟩
      rcases hsends.2 with hn | ⟨e, t, he, _, _, hcount⟩
      · rw [hn]
        decide
      · rw [he] at hfew
        rw [toCount_value] at hcount
        exact Nat.succ_le_of_lt (hcount.trans_lt hfew)
  | @issues pending hphase hnew =>
      rw [SendsOk, hphase] at hsends
      have hwrong := hd.wrong
      have hone : (d.codes.issues + 1) - begin.issues = (d.codes.issues - begin.issues) + 1 := by omega
      refine ⟨Nat.le_succ_of_le hbegun, ?_, ?_⟩
      · show (d.codes.issues + 1) - begin.issues ≤ maxSends ∧
          Backed ends ((d.codes.issues + 1) - begin.issues - 1) d.sends
        rw [hone]
        exact hsends
      · show d.codes.wrongs + maxAttempts ≤
          begin.wrongs + maxAttempts * ((d.codes.issues + 1) - begin.issues + 1) + 0
        rw [hone, Nat.mul_add maxAttempts _ 1]
        omega
  | counts hphase =>
      rw [SendsOk, hphase] at hsends
      refine ⟨hbegun, ⟨hsends.1, ?_, ?_⟩, hwrongs⟩
      · by_cases hone : d.codes.issues - begin.issues = 1
        · exact .inl hone
        · right
          rcases hsends.2 with hn | ⟨⟨v, _⟩, t, he, rfl, hlate, hcount⟩
          · exact .inl (by dsimp only; omega)
          · refine .inr ⟨_, t, rfl, ?_, hlate, ?_⟩
            · show (counted d.sends).2.deadline = some t
              rw [he]
              rfl
            · rw [counted_count, he]
              rw [toCount_value] at hcount
              dsimp only [Option.map_some] at hcount ⊢
              omega
      · intro e he
        rw [← Option.some.inj he, counted_count]
        rcases hsends.2 with hn | ⟨e', t, he', _, _, hcount⟩
        · dsimp only
          omega
        · rw [he']
          rw [toCount_value] at hcount
          dsimp only [Option.map_some]
          omega
  | @renews e hphase he =>
      refine ⟨hbegun, ?_, hwrongs⟩
      have hcount : d.codes.issues - begin.issues ≤ maxSends ∧
          d.codes.issues - begin.issues ≤ Counter.toCount e.value := by
        rcases hphase with hphase | hphase <;> rw [SendsOk, hphase] at hsends
        · refine ⟨hsends.1, ?_⟩
          rcases hsends.2 with hn | ⟨e', t, he', _, _, hcount⟩
          · omega
          · rwa [Option.some.inj (he.symm.trans he')]
        · exact ⟨hsends.1, hsends.2.2 e he⟩
      exact ⟨hcount.1, .renews hcount.2 hends⟩
  | misses hphase =>
      rw [SendsOk, hphase] at hsends
      refine ⟨hbegun, hsends, ?_⟩
      show d.codes.wrongs + 1 + maxAttempts ≤
        begin.wrongs + maxAttempts * (d.codes.issues - begin.issues + 1) + (d.codes.wrong + 1)
      omega
  | resaves hphase =>
      rw [SendsOk, hphase] at hsends
      exact ⟨hbegun, hsends, hwrongs⟩
  | accepts hphase => exact absurd haccepts (Nat.succ_ne_self _)

/-- A period begins with no sends of its own. -/
theorem periodOk_begin (d : Desk) (ends : ℕ) : PeriodOk d.codes ends d := by
  have hnone : d.codes.issues - d.codes.issues = 0 := Nat.sub_self _
  refine ⟨le_rfl, ?_, ?_⟩
  · rw [hnone]
    unfold SendsOk
    split
    · exact ⟨by decide, .inl rfl⟩
    · exact ⟨by decide, .inl rfl⟩
    · exact ⟨by decide, .inr (.inl rfl), fun _ _ => Nat.zero_le _⟩
    · exact ⟨by decide, .inl rfl⟩
  · rw [hnone]
    omega

theorem PeriodOk.bounds {d : Desk} {begin : Codes} {ends : ℕ} (hd : CodeOk d)
    (hp : PeriodOk begin ends d) :
    d.codes.issues ≤ begin.issues + maxSends ∧
      d.codes.wrongs ≤ begin.wrongs + (maxSends + 1) * maxAttempts := by
  have hsent : d.codes.issues - begin.issues ≤ maxSends := by
    have hsends := hp.sends
    unfold SendsOk at hsends
    split at hsends
    · exact (Nat.le_succ _).trans hsends.1
    · exact hsends.1
    · exact hsends.1
    · exact hsends.1
  have hwrong := hd.wrong
  have hwrongs := hp.wrongs
  have hmul : maxAttempts * (d.codes.issues - begin.issues + 1) ≤ maxAttempts * (maxSends + 1) :=
    Nat.mul_le_mul_left _ (Nat.succ_le_succ hsent)
  rw [Nat.mul_comm (maxSends + 1)]
  omega

/-! ### The keys under a deed -/

/-- The code kept for the number. -/
def pendingFor (p : String) (s : Store) : Option PendingOtp := pendingOf (s.redis.value (.registration p))

/-- The counter of the number's sends. -/
def sendsFor (p : String) (s : Store) : Option (Entry AuthValue) := s.redis.keys (.registrationSends p)

/-- The desk when the lock's holder is in a phase. -/
def deskAt (p : String) (q : Phase) (s : Store) (c : Codes) : Desk :=
  ⟨q, pendingFor p s, sendsFor p s, s.redis.clock, c⟩

/-- The lock is taken. -/
def locked (p : String) (s : Store) : Prop := (s.redis.keys (.registrationLock p)).isSome = true

theorem writes_named (c : RedisCmd AuthKey AuthValue) {k : AuthKey} (hk : k ∈ c.writes) : k ∈ named c := by
  cases c with
  | get j => cases hk
  | ttl j => cases hk
  | _ => exact hk

/-- A command leaves the keys it does not write. -/
theorem keys_effect {w : Answers} {cmd : AuthCmd} {k : AuthKey}
    (h : ∀ c, cmd = .redis c → k ∉ c.writes) : (effect w cmd s).2.redis.keys k = s.redis.keys k := by
  cases cmd with
  | redis c => exact keys_redisExec_of_notMem (h c rfl) s.redis
  | _ => rfl

theorem clock_effect (w : Answers) (cmd : AuthCmd) : (effect w cmd s).2.redis.clock = s.redis.clock := by
  cases cmd with
  | redis c => exact clock_redisExec c s.redis
  | _ => rfl

theorem keys_other {w : Answers} {cmd : AuthCmd} {k : AuthKey} (hkeys : ∀ j ∈ namedBy cmd, ¬ Own p j)
    (hk : Own p k) : (effect w cmd s).2.redis.keys k = s.redis.keys k := by
  apply keys_effect
  rintro c rfl hwrites
  exact hkeys k (writes_named c hwrites) hk

theorem pendingFor_of_keys (h : s'.redis.keys (.registration p) = s.redis.keys (.registration p)) :
    pendingFor p s' = pendingFor p s := by
  unfold pendingFor Redis.value
  rw [h]

/-- The desk after a command that writes neither the code nor the counter. -/
theorem deskAt_effect {w : Answers} {cmd : AuthCmd} {q : Phase} {c : Codes}
    (hpending : ∀ r, cmd = .redis r → .registration p ∉ r.writes)
    (hsends : ∀ r, cmd = .redis r → .registrationSends p ∉ r.writes) :
    deskAt p q (effect w cmd s).2 c = deskAt p q s c := by
  unfold deskAt sendsFor
  rw [pendingFor_of_keys (keys_effect hpending), keys_effect hsends, clock_effect]

section Deeds

variable {w : Answers} {q : Phase} {cmd : AuthCmd} {c : Codes}

/-- Only taking the lock ends another phase than idle. -/
theorem deed_idle (hdeed : Deed p .idle cmd)
    (hidle : phaseNext p .idle cmd (effect w cmd s).1 = .idle) (q : Phase) :
    deskAt p q (effect w cmd s).2 (codesNext p .idle cmd c) = deskAt p q s c := by
  cases hdeed with
  | lock owner =>
      refine deskAt_effect ?_ ?_ <;> rintro _ ⟨⟩ hwrites <;> cases List.mem_singleton.mp hwrites
  | unlock owner hq => rcases hq with hq | hq <;> cases hq
  | renew hq => rcases hq with hq | hq <;> cases hq
  | other hkeys hnow =>
      rw [codesNext_other hkeys hnow]
      unfold deskAt sendsFor
      rw [pendingFor_of_keys (keys_other (k := .registration p) hkeys rfl),
        keys_other (k := .registrationSends p) hkeys rfl, clock_effect]

/-- What a command does to the lock: it takes it, gives it back, or leaves it. -/
theorem deed_lock (w : Answers) (s : Store) (hdeed : Deed p q cmd) :
    (q = .idle ∧ ¬ locked p s ∧ locked p (effect w cmd s).2) ∨
      (q ≠ .idle ∧ phaseNext p q cmd (effect w cmd s).1 = .idle) ∨
      ((phaseNext p q cmd (effect w cmd s).1 ≠ .idle → q ≠ .idle) ∧
        (locked p s → locked p (effect w cmd s).2)) := by
  have hkept : ∀ {cmd : AuthCmd}, (∀ r, cmd = .redis r → .registrationLock p ∉ r.writes) →
      locked p s → locked p (effect w cmd s).2 := by
    intro cmd hwrites hlocked
    unfold locked
    rwa [keys_effect hwrites]
  cases hdeed with
  | lock owner =>
      by_cases hlocked : locked p s
      · have hexec : redisExec (.setIfAbsent (.registrationLock p) owner lockSeconds) s.redis =
            (false, s.redis) := if_pos hlocked
        refine .inr (.inr ⟨fun hnext => absurd ?_ hnext, fun _ => ?_⟩)
        · refine if_neg fun h => ?_
          have htaken : (redisExec (.setIfAbsent (.registrationLock p) owner lockSeconds) s.redis).1 =
            true := h.2
          rw [hexec] at htaken
          cases htaken
        · show ((redisExec (.setIfAbsent (.registrationLock p) owner lockSeconds) s.redis).2.keys
            (.registrationLock p)).isSome = true
          rw [hexec]
          exact hlocked
      · refine .inl ⟨rfl, hlocked, ?_⟩
        have hexec : (redisExec (.setIfAbsent (.registrationLock p) owner lockSeconds) s.redis).2 =
            s.redis.put (.registrationLock p) (some ⟨owner, some (s.redis.after lockSeconds)⟩) :=
          congrArg Prod.snd (if_neg hlocked)
        show ((redisExec (.setIfAbsent (.registrationLock p) owner lockSeconds) s.redis).2.keys
          (.registrationLock p)).isSome = true
        rw [hexec, Redis.keys_put_self]
        rfl
  | unlock owner hq =>
      refine .inr (.inl ⟨?_, if_pos rfl⟩)
      rcases hq with rfl | rfl <;> exact Phase.noConfusion
  | renew hq =>
      refine .inr (.inr ⟨fun _ => ?_, hkept ?_⟩)
      · rcases hq with rfl | rfl <;> exact Phase.noConfusion
      · rintro _ ⟨⟩ hwrites
        cases List.mem_singleton.mp hwrites
  | other hkeys hnow =>
      refine .inr (.inr ⟨fun h => by rwa [phaseNext_other hkeys hnow] at h, fun hlocked => ?_⟩)
      unfold locked
      rwa [keys_other (k := .registrationLock p) hkeys rfl]
  | readSends => exact .inr (.inr ⟨fun _ => Phase.noConfusion, id⟩)
  | left => exact .inr (.inr ⟨fun _ => Phase.noConfusion, id⟩)
  | read => exact .inr (.inr ⟨fun _ => Phase.noConfusion, id⟩)
  | look pending => exact .inr (.inr ⟨fun _ => Phase.noConfusion, id⟩)
  | miss pending time => exact .inr (.inr ⟨fun _ => Phase.noConfusion, id⟩)
  | issue pending hnew =>
      refine .inr (.inr ⟨fun _ => Phase.noConfusion, hkept ?_⟩)
      rintro _ ⟨⟩ hwrites
      cases List.mem_singleton.mp hwrites
  | count =>
      refine .inr (.inr ⟨fun _ => Phase.noConfusion, hkept ?_⟩)
      rintro _ ⟨⟩ hwrites
      cases List.mem_singleton.mp hwrites
  | resave pending ttlSeconds =>
      refine .inr (.inr ⟨fun _ => Phase.noConfusion, hkept ?_⟩)
      rintro _ ⟨⟩ hwrites
      cases List.mem_singleton.mp hwrites
  | discard =>
      refine .inr (.inr ⟨fun _ => Phase.noConfusion, hkept ?_⟩)
      rintro _ ⟨⟩ hwrites
      rcases List.mem_pair.mp hwrites with h | h <;> cases h
  | accept pending time =>
      refine .inr (.inr ⟨fun _ => Phase.noConfusion, hkept ?_⟩)
      rintro _ ⟨⟩ hwrites
      rcases List.mem_pair.mp hwrites with h | h <;> cases h

/-- The desk after a command, field by field. -/
theorem move_of {q' : Phase} {pending : Option PendingOtp} {sends : Option (Entry AuthValue)} {c' : Codes}
    (hphase : phaseNext p q cmd (effect w cmd s).1 = q')
    (hpending : pendingFor p (effect w cmd s).2 = pending)
    (hsends : sendsFor p (effect w cmd s).2 = sends) (hcodes : codesNext p q cmd c = c')
    (h : DeskMove (deskAt p q s c) ⟨q', pending, sends, s.redis.clock, c'⟩) :
    DeskMove (deskAt p q s c)
      (deskAt p (phaseNext p q cmd (effect w cmd s).1) (effect w cmd s).2 (codesNext p q cmd c)) := by
  unfold deskAt at h ⊢
  rwa [hphase, hpending, hsends, hcodes, clock_effect]

theorem pendingFor_put {k : AuthKey} (hk : .registration p ≠ k) (e : Option (Entry AuthValue)) :
    pendingFor p { s with redis := s.redis.put k e } = pendingFor p s :=
  pendingFor_of_keys (Redis.keys_put_of_ne hk e)

theorem sendsFor_put {k : AuthKey} (hk : .registrationSends p ≠ k) (e : Option (Entry AuthValue)) :
    sendsFor p { s with redis := s.redis.put k e } = sendsFor p s := Redis.keys_put_of_ne hk e

theorem pendingFor_deleted (ks : List AuthKey) :
    pendingFor p { s with redis := deleted s.redis (.registration p :: ks) } = none :=
  congrArg (fun o => pendingOf (Option.map Entry.value o)) (if_pos List.mem_cons_self)

/-- **What a deed of the holder does to the desk.** -/
theorem deed_move (w : Answers) (c : Codes) (hdeed : Deed p q cmd)
    (hfound : ∀ ttlSeconds, cmd = .redis (.expire (.registrationSends p) ttlSeconds) →
      (sendsFor p s).isSome = true) :
    DeskMove (deskAt p q s c)
      (deskAt p (phaseNext p q cmd (effect w cmd s).1) (effect w cmd s).2 (codesNext p q cmd c)) := by
  cases hdeed with
  | lock owner =>
      rw [deskAt_effect]
      · by_cases htaken : (redisExec (.setIfAbsent (.registrationLock p) owner lockSeconds) s.redis).1 =
            true
        · exact .settles trivial (.inr (if_pos ⟨rfl, htaken⟩)) (.inl rfl)
        · exact .settles trivial (.inl (if_neg fun h => htaken h.2)) (.inl rfl)
      · rintro _ ⟨⟩ hwrites
        cases List.mem_singleton.mp hwrites
      · rintro _ ⟨⟩ hwrites
        cases List.mem_singleton.mp hwrites
  | unlock owner hq =>
      rw [deskAt_effect]
      · refine .settles ?_ (.inl (if_pos rfl)) (.inl rfl)
        rcases hq with rfl | rfl <;> trivial
      · rintro _ ⟨⟩ hwrites
        cases List.mem_singleton.mp hwrites
      · rintro _ ⟨⟩ hwrites
        cases List.mem_singleton.mp hwrites
  | readSends =>
      by_cases hfew : countOf (s.redis.value (.registrationSends p)) < maxSends
      · exact move_of (if_pos ⟨rfl, hfew⟩) rfl rfl rfl (.may rfl hfew)
      · exact move_of (if_neg fun h => hfew h.2) rfl rfl rfl (.same _)
  | left => exact .same _
  | issue pending hnew =>
      refine move_of ?_ ?_ ?_ ?_ (.issues rfl hnew)
      · exact (if_pos rfl).trans (if_pos hnew)
      · exact congrArg pendingOf (Redis.value_put_self _ _ _)
      · exact sendsFor_put (fun h => by cases h) _
      · exact if_pos ⟨rfl, hnew⟩
  | count =>
      refine move_of ?_ ?_ ?_ rfl (.counts rfl)
      · exact if_pos rfl
      · exact pendingFor_put (fun h => by cases h) _
      · exact Redis.keys_put_self _ _ _
  | renew hq =>
      obtain ⟨e, he⟩ := Option.isSome_iff_exists.mp (hfound _ rfl)
      refine move_of ?_ ?_ ?_ rfl (.renews hq he)
      · exact if_pos rfl
      · exact pendingFor_put (fun h => by cases h) _
      · have hkeys : s.redis.keys (.registrationSends p) = some e := he
        refine (Redis.keys_put_self _ _ _).trans ?_
        rw [hkeys]
        rfl
  | discard =>
      have hsends : AuthKey.registrationSends p ∉ [AuthKey.registration p, .registrationCooldown p] := by
        simp
      have hkeys : [AuthKey.registration p, .registrationCooldown p] ≠
          [.registration p, .registrationSends p] := by simp
      refine move_of ?_ (pendingFor_deleted _) ?_ ?_ (.settles trivial (.inr rfl) (.inr rfl))
      · exact if_pos List.mem_cons_self
      · exact keys_redisExec_of_notMem
          (c := .delete [.registration p, .registrationCooldown p]) hsends s.redis
      · exact if_neg hkeys
  | read =>
      cases hpending : pendingFor p s with
      | none => exact move_of ((if_pos rfl).trans (congrArg found hpending)) rfl rfl rfl (.same _)
      | some pending =>
          exact move_of ((if_pos rfl).trans (congrArg found hpending)) rfl rfl rfl (.reads rfl hpending)
  | look pending =>
      show DeskMove (deskAt p (.read pending) s c) (deskAt p (looked pending s.redis.clock) s c)
      unfold looked
      split
      · rename_i hlive
        exact .looks rfl hlive
      · exact .settles trivial (.inr rfl) (.inl rfl)
  | miss pending time => exact .misses rfl
  | resave pending ttlSeconds =>
      refine move_of ?_ ?_ ?_ ?_ (.resaves rfl)
      · exact (if_pos rfl).trans (if_neg (Nat.succ_ne_zero _))
      · exact congrArg pendingOf (Redis.value_put_self _ _ _)
      · exact sendsFor_put (fun h => by cases h) _
      · exact if_neg fun h => Nat.succ_ne_zero _ h.2
  | accept pending time =>
      refine move_of ?_ (pendingFor_deleted _) ?_ ?_ (.accepts rfl)
      · exact if_pos List.mem_cons_self
      · exact if_pos (List.mem_cons_of_mem _ List.mem_cons_self)
      · exact if_pos rfl
  | other hkeys hnow =>
      rw [phaseNext_other hkeys hnow, codesNext_other hkeys hnow]
      unfold deskAt sendsFor
      rw [pendingFor_of_keys (keys_other (k := .registration p) hkeys rfl),
        keys_other (k := .registrationSends p) hkeys rfl, clock_effect]
      exact .same _

end Deeds

/-! ### Every run -/

/-- **No call outlives its lock.** -/
def LockLasts (p : String) (tr : List (Event Resp)) (b : Conf Resp AuthError Store) : Prop :=
  ∀ pid < b.pool.length, phases p tr pid ≠ .idle →
    ∀ t ∈ (b.store.redis.keys (.registrationLock p)).bind Entry.deadline, b.store.redis.clock < t

/-- **The condition.**  The counter of the sends is there when it is renewed. -/
def SendsThere (p : String) (b : Conf Resp AuthError Store) : Event Resp → Prop
  | .act _ (.redis (.expire (.registrationSends phone) _)) _ =>
      phone = p → (sendsFor p b.store).isSome = true
  | _ => True

/-- A step of a run in which no call outlives its lock. -/
def Lasting (p : String) (tr : List (Event Resp)) (b : Conf Resp AuthError Store) (_ : Event Resp) :
    Prop := LockLasts p tr b

/-- A step that meets the condition besides. -/
def Renewing (p : String) (tr : List (Event Resp)) (b : Conf Resp AuthError Store) (e : Event Resp) :
    Prop := LockLasts p tr b ∧ SendsThere p b e

/-- The runs of all calls whose steps meet a condition. -/
abbrev CodeRun (cfg : Setup) (Ok : List (Event Resp) → Conf Resp AuthError Store → Event Resp → Prop)
    (s₀ : Store) : List (Event Resp) → Conf Resp AuthError Store → Prop :=
  (authMachine cfg fun _ => true).Run Ok (.start s₀)

abbrev CodeLater (cfg : Setup) (Ok : List (Event Resp) → Conf Resp AuthError Store → Event Resp → Prop) :
    List (Event Resp) × Conf Resp AuthError Store → List (Event Resp) × Conf Resp AuthError Store → Prop :=
  (authMachine cfg fun _ => true).Later Ok

section Runs

variable {Ok : List (Event Resp) → Conf Resp AuthError Store → Event Resp → Prop}
  {x y : List (Event Resp) × Conf Resp AuthError Store} {tr : List (Event Resp)}
  {b c : Conf Resp AuthError Store} {e : Event Resp}

theorem run_deeds (h : CodeRun cfg Ok s₀ tr b) :
    (∀ pid, b.pool.length ≤ pid → phases p tr pid = .idle) ∧
      ∀ pid cmd k, b.pool[pid]? = some (.call cmd k) → Deed p (phases p tr pid) cmd := by
  have haccepted := Run.accepted (μ := phaseMonitor p) (F := fun _ => True) (fun call s m s' hbegin => by
    obtain ⟨rfl, _⟩ := Prod.mk.inj (Option.some.inj hbegin)
    exact accepts_mono (accepts_authProgram call) fun _ _ _ => trivial)
      (fun _ _ _ _ _ _ _ _ _ _ => trivial) h
  exact ⟨haccepted.1, fun pid cmd k hpool => (haccepted.2 pid _ hpool).1⟩

/-- Whoever is not idle holds the lock, and holds it alone. -/
structure HeldAlone (p : String) (q : ℕ → Phase) (s : Store) : Prop where
  locked : ∀ pid, q pid ≠ .idle → locked p s
  alone : ∀ pid other, q pid ≠ .idle → q other ≠ .idle → pid = other

/-- A lock that lasts does not go by itself. -/
theorem HeldAlone.pass {o : Passing} (ho : pass o b.store = some c.store) (hlasts : LockLasts p tr b)
    (hidle : ∀ pid, b.pool.length ≤ pid → phases p tr pid = .idle)
    (h : HeldAlone p (phases p tr) b.store) : HeldAlone p (phases p tr) c.store := by
  refine ⟨fun pid hpid => ?_, h.alone⟩
  have hlocked := h.locked pid hpid
  cases o with
  | time milliseconds =>
      have hstore : _ = c.store := Option.some.inj ho
      rw [← hstore]
      exact hlocked
  | expiry key =>
      obtain ⟨redis, hevict, hstore⟩ := Option.map_eq_some_iff.mp ho
      obtain ⟨entry, d, hkey, hdeadline, hdue, rfl⟩ := evict_some hevict
      rw [← hstore]
      by_cases hlock : AuthKey.registrationLock p = key
      · subst hlock
        have hlen : pid < b.pool.length := by
          by_contra hlen
          exact hpid (hidle pid (not_lt.mp hlen))
        have hbefore := hlasts pid hlen hpid d (by rw [hkey]; exact hdeadline)
        omega
      · unfold SmsCodes.locked at hlocked ⊢
        rwa [Redis.keys_put_of_ne hlock]

/-- A deed keeps the lock with one call. -/
theorem HeldAlone.deed {w : Answers} {pid : ℕ} {cmd : AuthCmd} (hdeed : Deed p (phases p tr pid) cmd)
    (h : HeldAlone p (phases p tr) s) :
    HeldAlone p (phases p (.act pid cmd (effect w cmd s).1 :: tr)) (effect w cmd s).2 := by
  rw [phases_act]
  rcases deed_lock w s hdeed with ⟨_, hfree, hlocked⟩ | ⟨hheld, hnext⟩ | ⟨hphase, hlocked⟩
  · -- the lock was free, so nobody held it
    have hall : ∀ other, other ≠ pid → Function.update (phases p tr) pid
        (phaseNext p (phases p tr pid) cmd (effect w cmd s).1) other = .idle := by
      intro other hother
      rw [Function.update_of_ne hother]
      by_contra hnot
      exact hfree (h.locked other hnot)
    have hpid : ∀ other, Function.update (phases p tr) pid
        (phaseNext p (phases p tr pid) cmd (effect w cmd s).1) other ≠ .idle → other = pid := by
      intro other hnot
      by_contra hother
      exact hnot (hall other hother)
    exact ⟨fun _ _ => hlocked, fun one other hone hother => (hpid one hone).trans (hpid other hother).symm⟩
  · have hall : ∀ other, Function.update (phases p tr) pid
        (phaseNext p (phases p tr pid) cmd (effect w cmd s).1) other = .idle := by
      intro other
      by_cases hother : other = pid
      · rw [hother, Function.update_self, hnext]
      · rw [Function.update_of_ne hother]
        by_contra hnot
        exact hother (h.alone other pid hnot hheld)
    exact ⟨fun other hnot => absurd (hall other) hnot, fun one _ hone => absurd (hall one) hone⟩
  · have hbefore : ∀ other, Function.update (phases p tr) pid
        (phaseNext p (phases p tr pid) cmd (effect w cmd s).1) other ≠ .idle →
          phases p tr other ≠ .idle := by
      intro other hnot
      by_cases hother : other = pid
      · rw [hother, Function.update_self] at hnot
        rw [hother]
        exact hphase hnot
      · rwa [Function.update_of_ne hother] at hnot
    exact ⟨fun other hnot => hlocked (h.locked other (hbefore other hnot)),
      fun one other hone hother => h.alone one other (hbefore one hone) (hbefore other hother)⟩

theorem run_heldAlone (hlasts : ∀ tr b e, Ok tr b e → LockLasts p tr b) (h : CodeRun cfg Ok s₀ tr b) :
    HeldAlone p (phases p tr) b.store := by
  refine Machine.Run.invariant (fun tr b => HeldAlone p (phases p tr) b.store) ?_ ?_ h
  · exact ⟨fun pid hpid => absurd rfl hpid, fun pid _ hpid => absurd rfl hpid⟩
  · intro tr b l e c hrun hheld hs hok
    obtain ⟨hidle, hdeeds⟩ := run_deeds (p := p) hrun
    rcases authStep_cases hs with ⟨o, ho, rfl, _⟩ | ⟨call, _, hstore, rfl, _⟩ |
      ⟨pid, w, cmd, k, r, hcall, hexec, rfl, _⟩
    · have hpassed : HeldAlone p (phases p tr) c.store := hheld.pass ho (hlasts tr b _ hok) hidle
      exact hpassed
    · rw [hstore]
      exact hheld
    · obtain ⟨_, rfl, hstore⟩ := exec_some hexec
      rw [hstore]
      exact hheld.deed (hdeeds pid cmd k hcall)

/-- The phase of whoever holds the lock. -/
noncomputable def holderPhase (q : ℕ → Phase) : Phase :=
  open Classical in if h : ∃ pid, q pid ≠ .idle then q h.choose else .idle

theorem holderPhase_eq {q : ℕ → Phase} {pid : ℕ} (h : ∀ other, other ≠ pid → q other = .idle) :
    holderPhase q = q pid := by
  unfold holderPhase
  split
  · rename_i hex
    have hchosen : hex.choose = pid := by
      by_contra hne
      exact hex.choose_spec (h _ hne)
    rw [hchosen]
  · rename_i hnone
    by_contra hne
    exact hnone ⟨pid, fun hidle => hne hidle.symm⟩

/-- The desk at a point of a run. -/
noncomputable def deskOf (p : String) (x : List (Event Resp) × Conf Resp AuthError Store) : Desk :=
  deskAt p (holderPhase (phases p x.1)) x.2.store (codes p x.1)

theorem pass_move {o : Passing} {q : Phase} {a : Codes} (ho : pass o s = some s') :
    DeskMove (deskAt p q s a) (deskAt p q s' a) := by
  cases o with
  | time milliseconds =>
      obtain rfl := Option.some.inj ho
      exact .passes (.inl rfl) (.inl rfl) (Nat.le_add_right _ _)
  | expiry key =>
      obtain ⟨redis, hevict, rfl⟩ := Option.map_eq_some_iff.mp ho
      obtain ⟨entry, d, hkey, hdeadline, hdue, rfl⟩ := evict_some hevict
      refine .passes ?_ ?_ le_rfl
      · by_cases hpending : AuthKey.registration p = key
        · subst hpending
          exact .inr (congrArg pendingOf (Redis.value_put_self _ _ _))
        · exact .inl (pendingFor_put hpending _)
      · by_cases hsends : AuthKey.registrationSends p = key
        · subst hsends
          exact .inr ⟨Redis.keys_put_self _ _ _, entry, d, hkey, hdeadline, hdue⟩
        · exact .inl (sendsFor_put hsends _)

/-- **Every step of a run is a move of the desk.** -/
theorem run_move {l : (authMachine cfg fun _ => true).Label}
    (hlasts : ∀ tr b e, Ok tr b e → LockLasts p tr b) (h : CodeRun cfg Ok s₀ tr b)
    (hs : (authMachine cfg fun _ => true).step b l = some (e, c)) (hthere : SendsThere p b e) :
    DeskMove (deskOf p (tr, b)) (deskOf p (e :: tr, c)) := by
  have hheld := run_heldAlone hlasts h
  rcases authStep_cases hs with ⟨o, ho, rfl, _⟩ | ⟨call, _, hstore, rfl, _⟩ |
    ⟨pid, w, cmd, k, r, hcall, hexec, rfl, _⟩
  · exact pass_move ho
  · unfold deskOf
    rw [hstore]
    exact .same _
  · obtain ⟨_, rfl, hstore⟩ := exec_some hexec
    have hdeed := (run_deeds (p := p) h).2 pid cmd k hcall
    unfold deskOf
    dsimp only
    rw [hstore, phases_act]
    by_cases hothers : ∀ other, other ≠ pid → phases p tr other = .idle
    · rw [holderPhase_eq hothers, holderPhase_eq fun other hother =>
        (Function.update_of_ne hother ..).trans (hothers other hother), Function.update_self]
      apply deed_move w _ hdeed
      rintro ttlSeconds rfl
      exact hthere rfl
    · -- another call holds the lock, so this one is idle and stays so
      push Not at hothers
      obtain ⟨other, hne, hbusy⟩ := hothers
      have hidle : phases p tr pid = .idle := by
        by_contra hnot
        exact hne (hheld.alone other pid hbusy hnot)
      have hnext : phaseNext p .idle cmd (effect w cmd b.store).1 = .idle := by
        rw [hidle] at hdeed
        rcases deed_lock w b.store hdeed with ⟨_, hfree, _⟩ | ⟨hnot, _⟩ | ⟨hphase, _⟩
        · exact absurd (hheld.locked other hbusy) hfree
        · exact absurd rfl hnot
        · by_contra hnot
          exact hphase hnot rfl
      have hsame : Function.update (phases p tr) pid .idle = phases p tr := by
        rw [← hidle]
        exact Function.update_eq_self ..
      show DeskMove _ (deskAt p _ _ (codesNext p (phases p tr pid) cmd (codes p tr)))
      rw [hidle] at hdeed ⊢
      rw [hnext, hsame, deed_idle hdeed hnext]
      exact .same _

/-! ### The claim of a run -/

/-- The code of the number is found right. -/
def acceptance (p : String) (pid : ℕ) : Event Resp :=
  .act pid (.redis (.delete [.registration p, .registrationSends p])) ()

/-- What was accepted after this trace is the last code issued: compared before its end, never
accepted before, and with fewer wrong tries than the limit. -/
def AcceptedOnce (p : String) (tr : List (Event Resp)) (pid : ℕ) : Prop :=
  ∃ issued time, (codes p tr).last = some issued ∧
    phases p tr pid = .compared { issued with attempts := (codes p tr).wrong } time ∧
    time < issued.expiresAt ∧ (codes p tr).accepted = 0 ∧ (codes p tr).wrong < maxAttempts

theorem run_codeOk (hok : ∀ tr b e, Ok tr b e → Renewing p tr b e)
    (h₀ : pendingFor p s₀ = none) (h : CodeRun cfg Ok s₀ tr b) : CodeOk (deskOf p (tr, b)) := by
  refine Machine.Run.invariant (fun tr b => CodeOk (deskOf p (tr, b))) ?_ ?_ h
  · have hidle : holderPhase (phases p []) = .idle := holderPhase_eq fun _ (_ : _ ≠ 0) => rfl
    unfold deskOf
    dsimp only
    rw [hidle]
    refine ⟨fun pending hp => ?_, fun _ _ hq => (by cases hq), Nat.zero_le _⟩
    rcases hp with hp | hp
    · cases h₀.symm.trans hp
    · cases hp
  · intro tr b l e c hrun hcode hs hstep
    exact (run_move (fun tr b e h => (hok tr b e h).1) hrun hs (hok _ _ _ hstep).2).codeOk hcode

/-- Whoever accepts a code compared the last one issued. -/
theorem acceptedOnce {pid : ℕ} {k : Resp (.redis (.delete [.registration p, .registrationSends p])) →
      Prog Resp AuthError Unit} (hlasts : ∀ tr b e, Ok tr b e → LockLasts p tr b)
    (h : CodeRun cfg Ok s₀ tr b) (hcode : CodeOk (deskOf p (tr, b)))
    (hpool : b.pool[pid]? = some (.call (.redis (.delete [.registration p, .registrationSends p])) k)) :
    AcceptedOnce p tr pid := by
  have hdeed := (run_deeds (p := p) h).2 pid _ _ hpool
  generalize hq : phases p tr pid = q at hdeed
  cases hdeed with
  | accept pending time =>
      have hothers : ∀ other, other ≠ pid → phases p tr other = .idle := by
        intro other hother
        by_contra hbusy
        exact hother ((run_heldAlone hlasts h).alone other pid hbusy (by rw [hq]; exact Phase.noConfusion))
      have hphase : (deskOf p (tr, b)).phase = .compared pending time := (holderPhase_eq hothers).trans hq
      obtain ⟨hlive, hfew⟩ := hcode.live pending time hphase
      have hmatches := hcode.known pending (.inr (by rw [hphase]; rfl))
      rw [hphase] at hmatches
      have hattempts : pending.attempts = (codes p tr).wrong := hmatches.attempts
      refine ⟨_, time, hmatches.last, ?_, hlive, hmatches.accepted, by rwa [← hattempts]⟩
      rw [hq, ← hattempts]
      rfl
  | other hkeys hnow => exact absurd rfl (hkeys (.registration p) List.mem_cons_self)

/-- Every code accepted in a run was the last one issued. -/
theorem run_accepted (hok : ∀ tr b e, Ok tr b e → Renewing p tr b e) (h₀ : pendingFor p s₀ = none)
    (h : CodeRun cfg Ok s₀ tr b) : ∀ before pid, acceptance p pid :: before <:+ tr → AcceptedOnce p before pid := by
  refine Machine.Run.invariant
    (fun tr _ => ∀ before pid, acceptance p pid :: before <:+ tr → AcceptedOnce p before pid) ?_ ?_ h
  · intro before pid hsuffix
    cases List.eq_nil_of_suffix_nil hsuffix
  · intro tr b l e c hrun hbefore hs hstep before pid hsuffix
    rcases List.suffix_cons_iff.mp hsuffix with heq | hsuffix
    · obtain ⟨hevent, rfl⟩ := List.cons.inj heq
      rcases authStep_cases hs with ⟨o, _, rfl, _⟩ | ⟨call, _, _, rfl, _⟩ |
        ⟨pid', w, cmd, k, r, hcall, _, rfl, _⟩
      · cases hevent
      · cases hevent
      · cases hevent
        exact acceptedOnce (fun tr b e h => (hok tr b e h).1) hrun (run_codeOk hok h₀ hrun) hcall
    · exact hbefore before pid hsuffix

theorem DeskMove.clock_le {d d' : Desk} (h : DeskMove d d') : d.clock ≤ d'.clock := by
  cases h with
  | passes _ _ hclock => exact hclock
  | _ => exact le_rfl

theorem DeskMove.accepts_le {d d' : Desk} (h : DeskMove d d') : d.codes.accepts ≤ d'.codes.accepts := by
  cases h with
  | accepts => exact Nat.le_succ _
  | _ => exact le_rfl

/-- **A period of a run**, as long as it lasts and no code is accepted in it. -/
theorem later_periodOk (hok : ∀ tr b e, Ok tr b e → Renewing p tr b e) (h₀ : pendingFor p s₀ = none)
    (h : CodeRun cfg Ok s₀ x.1 x.2) (hxy : CodeLater cfg Ok x y) :
    (deskOf p x).clock ≤ (deskOf p y).clock ∧
      (deskOf p x).codes.accepts ≤ (deskOf p y).codes.accepts ∧
      ((deskOf p y).codes.accepts = (deskOf p x).codes.accepts →
        (deskOf p y).clock < (deskOf p x).clock + sendsBlockSeconds * 1000 →
          PeriodOk (deskOf p x).codes ((deskOf p x).clock + sendsBlockSeconds * 1000) (deskOf p y)) := by
  induction hxy with
  | refl => exact ⟨le_rfl, le_rfl, fun _ _ => periodOk_begin _ _⟩
  | @tail z y hxz hnext ih =>
      obtain ⟨l, e, hs, hstep, htr⟩ := hnext
      obtain ⟨hclock, haccepts, hperiod⟩ := ih
      have hrun := h.later hxz
      have hmove : DeskMove (deskOf p z) (deskOf p (e :: z.1, y.2)) :=
        run_move (fun tr b e h => (hok tr b e h).1) hrun hs (hok _ _ _ hstep).2
      have hy : y = (e :: z.1, y.2) := by rw [← htr]
      rw [← hy] at hmove
      refine ⟨hclock.trans hmove.clock_le, haccepts.trans hmove.accepts_le, fun hsame hwithin => ?_⟩
      have hle := hmove.accepts_le
      have hearly : (deskOf p z).clock < (deskOf p x).clock + sendsBlockSeconds * 1000 :=
        hmove.clock_le.trans_lt hwithin
      have hz : (deskOf p z).codes.accepts = (deskOf p x).codes.accepts := by omega
      exact hmove.periodOk (run_codeOk hok h₀ hrun) (hperiod hz hearly) hearly
        (Nat.add_le_add_right hclock _) (hsame.trans hz.symm)

/-- **The codes of a number.**  In a run in which no call outlives its lock and every renewal finds the
counter of the number's sends, every code accepted was the last one issued, was compared before its end
and with tries left, and was not accepted before; and within any `sendsBlockSeconds` without an
accepted code at most `maxSends` codes are issued and `(maxSends + 1) * maxAttempts` wrong ones
compared. -/
theorem codes_bounded (h₀ : pendingFor p s₀ = none) (h : CodeRun cfg (Renewing p) s₀ x.1 x.2)
    (hxy : CodeLater cfg (Renewing p) x y) :
    (∀ before pid, acceptance p pid :: before <:+ y.1 → AcceptedOnce p before pid) ∧
      ((codes p y.1).accepts = (codes p x.1).accepts →
        y.2.store.redis.clock < x.2.store.redis.clock + sendsBlockSeconds * 1000 →
          (codes p y.1).issues ≤ (codes p x.1).issues + maxSends ∧
            (codes p y.1).wrongs ≤ (codes p x.1).wrongs + (maxSends + 1) * maxAttempts) := by
  have hok : ∀ tr b e, Renewing p tr b e → Renewing p tr b e := fun _ _ _ => id
  have hy : CodeRun cfg (Renewing p) s₀ y.1 y.2 := h.later hxy
  refine ⟨run_accepted hok h₀ hy, fun haccepts hclock => ?_⟩
  obtain ⟨_, _, hperiod⟩ := later_periodOk hok h₀ h hxy
  exact (hperiod haccepts hclock).bounds (run_codeOk hok h₀ hy)

end Runs

/-! ### Runs -/

instance (tr : List (Event Resp)) (b : Conf Resp AuthError Store) : Decidable (LockLasts p tr b) :=
  inferInstanceAs (Decidable (∀ pid < b.pool.length, phases p tr pid ≠ .idle →
    ∀ t ∈ (b.store.redis.keys (.registrationLock p)).bind Entry.deadline, b.store.redis.clock < t))

instance (tr : List (Event Resp)) (b : Conf Resp AuthError Store) (e : Event Resp) :
    Decidable (Lasting p tr b e) := inferInstanceAs (Decidable (LockLasts p tr b))

instance (b : Conf Resp AuthError Store) (e : Event Resp) : Decidable (SendsThere p b e) :=
  match e with
  | .act _ (.redis (.expire (.registrationSends phone) _)) _ =>
      inferInstanceAs (Decidable (phone = p → (sendsFor p b.store).isSome = true))
  | .act _ (.redis (.expire (.registration _) _)) _ => isTrue trivial
  | .act _ (.redis (.expire (.registrationToken _) _)) _ => isTrue trivial
  | .act _ (.redis (.expire (.registrationLock _) _)) _ => isTrue trivial
  | .act _ (.redis (.expire (.registrationCooldown _) _)) _ => isTrue trivial
  | .act _ (.redis (.expire (.refreshToken _) _)) _ => isTrue trivial
  | .act _ (.redis (.expire (.activeSession _) _)) _ => isTrue trivial
  | .act _ (.redis (.expire (.adminSignInFailures _) _)) _ => isTrue trivial
  | .act _ (.redis (.get _)) _ => isTrue trivial
  | .act _ (.redis (.ttl _)) _ => isTrue trivial
  | .act _ (.redis (.set _ _ _)) _ => isTrue trivial
  | .act _ (.redis (.setIfAbsent _ _ _)) _ => isTrue trivial
  | .act _ (.redis (.incr _)) _ => isTrue trivial
  | .act _ (.redis (.delete _)) _ => isTrue trivial
  | .act _ (.redis (.deleteIfValue _ _)) _ => isTrue trivial
  | .act _ (.redis (.take _)) _ => isTrue trivial
  | .act _ .random _ => isTrue trivial
  | .act _ .now _ => isTrue trivial
  | .act _ (.outer _) _ => isTrue trivial
  | .act _ (.answer _) _ => isTrue trivial
  | .outside => isTrue trivial
  | .start _ => isTrue trivial

instance (tr : List (Event Resp)) (b : Conf Resp AuthError Store) (e : Event Resp) :
    Decidable (Renewing p tr b e) :=
  inferInstanceAs (Decidable (LockLasts p tr b ∧ SendsThere p b e))

/-- A server that sends codes. -/
def sendingSetup : Setup := ⟨true, fun _ => none, fun _ code => code, id⟩

/-- The next value drawn is this one, and the provider sends `1`. -/
def sending (r : ℕ) : Answers where
  random := r
  outer
    | .sendOtp _ => .ok "1"
    | _ => .error .unavailable

abbrev CodeLabel : Type := (authMachine sendingSetup fun _ => true).Label

def emptyStore : Store := ⟨⟨0, fun _ => none⟩, []⟩

/-- So many commands of a call. -/
def commands (pid n : ℕ) : List CodeLabel := (List.range n).map fun _ => .act pid (sending pid)

/-- A minute later the number may ask again. -/
def minuteLater : List CodeLabel := [.outside (.time 60000), .outside (.expiry (.registrationCooldown ""))]

/-- The number asks for a code. -/
def asks : CodeLabel := .start (.requestOtp "")

/-- A code, and a second one asked for just before the counter's hour is over. -/
def firstHour : List CodeLabel :=
  asks :: commands 0 11 ++ [.outside (.time 3599000), .outside (.expiry (.registrationCooldown "")), asks]

/-- The second code is counted, and the counter goes before it is renewed. -/
def lostSend : List CodeLabel :=
  commands 1 8 ++ [.outside (.time 2000), .outside (.expiry (.registrationSends ""))] ++ commands 1 2

/-- Three more codes, a minute apart. -/
def threeMore : List CodeLabel :=
  minuteLater ++ asks :: commands 2 11 ++ minuteLater ++ asks :: commands 3 10 ++ minuteLater ++
    asks :: commands 4 10

/-- The number asks for a code and gives it. -/
def signsIn : List CodeLabel :=
  asks :: commands 0 11 ++ .start (.verifyOtp "" "1") :: commands 1 7

def lastingPlay (x : List (Event Resp) × Conf Resp AuthError Store) (ls : List CodeLabel) :
    Option (List (Event Resp) × Conf Resp AuthError Store) :=
  (authMachine sendingSetup fun _ => true).play (Lasting "") x.1 x.2 ls

def codesSeen (x : List (Event Resp) × Conf Resp AuthError Store) : ℕ × ℕ × ℕ × List Bool :=
  ((codes "" x.1).issues, (codes "" x.1).accepts, x.2.store.redis.clock, x.2.pool.map Prog.finished)

/-- A code asked for and given: it was the last one, live and not given before. -/
theorem codes_bounded_signIn :
    ∃ y, (authMachine sendingSetup fun _ => true).play (Renewing "") [] (.start emptyStore) signsIn =
        some y ∧ (codes "" y.1).accepts = 1 ∧
      ∀ before pid, acceptance "" pid :: before <:+ y.1 → AcceptedOnce "" before pid := by
  have hend : ((authMachine sendingSetup fun _ => true).play (Renewing "") [] (.start emptyStore)
      signsIn).map (fun y => (codes "" y.1).accepts) = some 1 := by decide
  obtain ⟨y, hy, haccepts⟩ := Option.map_eq_some_iff.mp hend
  have hrun : CodeRun sendingSetup (Renewing "") emptyStore [] (.start emptyStore) := .nil
  have hlater : CodeLater sendingSetup (Renewing "") ([], .start emptyStore) y := Machine.play_later hy
  exact ⟨y, hy, haccepts, (codes_bounded (p := "") rfl hrun hlater).1⟩

/-- **Four codes within an hour**, without an accepted one: the counter goes between the second code's
increment and its renewal, so the next three are counted from one again. -/
theorem not_codes_bounded :
    ∃ x y, CodeRun sendingSetup (Lasting "") emptyStore x.1 x.2 ∧
      CodeLater sendingSetup (Lasting "") x y ∧ (codes "" y.1).accepts = (codes "" x.1).accepts ∧
      y.2.store.redis.clock < x.2.store.redis.clock + sendsBlockSeconds * 1000 ∧
      ¬ (codes "" y.1).issues ≤ (codes "" x.1).issues + maxSends := by
  have hend : ((lastingPlay ([], .start emptyStore) firstHour).bind fun x =>
      (lastingPlay x (lostSend ++ threeMore)).map fun y => (codesSeen x, codesSeen y)) =
        some ((1, 0, 3599000, [true, false]), (5, 0, 3781000, [true, true, true, true, true])) := by
    decide
  obtain ⟨x, hx, hrest⟩ := Option.bind_eq_some_iff.mp hend
  obtain ⟨y, hy, hseen⟩ := Option.map_eq_some_iff.mp hrest
  obtain ⟨hbefore, hafter⟩ := Prod.mk.inj hseen
  obtain ⟨hissues, haccepts, hclock, _⟩ : (codes "" x.1).issues = 1 ∧ (codes "" x.1).accepts = 0 ∧
      x.2.store.redis.clock = 3599000 ∧ _ := by
    simpa only [codesSeen, Prod.mk.injEq] using hbefore
  obtain ⟨hissues', haccepts', hclock', _⟩ : (codes "" y.1).issues = 5 ∧ (codes "" y.1).accepts = 0 ∧
      y.2.store.redis.clock = 3781000 ∧ _ := by
    simpa only [codesSeen, Prod.mk.injEq] using hafter
  refine ⟨x, y, Machine.play_run .nil hx, Machine.play_later hy, haccepts'.trans haccepts.symm, ?_, ?_⟩
  · rw [hclock, hclock']
    decide
  · rw [hissues, hissues']
    decide

end TransportBackend.SmsCodes
