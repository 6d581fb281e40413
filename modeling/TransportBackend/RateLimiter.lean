import TransportBackend.SequentialRun
import TransportBackend.SpacedTimes

/-!
# The pace of a messenger

`RateLimiter` of `rateLimiter.ts`.  A call of `take` looks at the clock, and either has its turn at once or
sleeps and looks again; between two looks other calls and pauses come in any order, and a timer may ring any
time from when it is due.  Times are milliseconds; the clock reads whole ones, and numbers are exact.

* `turnAt`, `taken`, `paused`: what a look at the clock, a turn and a pause do;
* `step`: a call, a timer that rings, a pause;
* `HadTurn`: which moments of a history are turns;
* `Kept`, `kept_step`: **the invariant**: nothing past is ahead of what the limiter remembers;
* `pace_kept`: **turns keep their distance and are behind every pause**, whatever the order;
* `calls_counted`: no call is lost: each had its turn or sleeps.
-/

namespace TransportBackend.RateLimiter

open TransportBackend.SequentialRun
open TransportBackend.SpacedTimes

/-! ### The limiter -/

/-- `perSecond`; who makes a limiter gives it a positive number of turns. -/
structure Rate where
  perSecond : ℚ
  positive : 0 < perSecond

/-- `1000 / this.perSecond`. -/
def Rate.interval (rate : Rate) : ℚ := 1000 / rate.perSecond

/-- The fields `next` and `pausedUntil`. -/
structure Limiter where
  next : ℚ
  pausedUntil : ℚ
  deriving DecidableEq

def fresh : Limiter := ⟨0, 0⟩

/-- `Math.max(now, this.next, this.pausedUntil)`. -/
def Limiter.turnAt (l : Limiter) (now : ℚ) : ℚ := max now (max l.next l.pausedUntil)

/-- A turn at `now`. -/
def Limiter.taken (l : Limiter) (rate : Rate) (now : ℚ) : Limiter := ⟨now + rate.interval, l.pausedUntil⟩

/-- `pause(ms)` at `now`. -/
def Limiter.paused (l : Limiter) (now ms : ℚ) : Limiter := ⟨l.next, max l.pausedUntil (now + ms)⟩

/-! ### Calls and timers -/

/-- The limiter, and when the timer of each sleeping call is due. -/
structure State where
  limiter : Limiter
  sleeping : List ℚ
  deriving DecidableEq

/-- The state a limiter is made in. -/
def start : State := ⟨fresh, []⟩

/-- One look at the clock: a turn, or a timer of `at - now` milliseconds. -/
def look (rate : Rate) (now : ℚ) (s : State) : State :=
  if s.limiter.turnAt now ≤ now then ⟨s.limiter.taken rate now, s.sleeping⟩
  else ⟨s.limiter, s.sleeping ++ [now + (s.limiter.turnAt now - now)]⟩

/-- A call of `take`, the ring of a timer, a call of `pause`. -/
inductive Op where
  | take
  | ring (timer : ℕ)
  | pause (ms : ℚ)
  deriving DecidableEq

/-- The call that a timer wakes, when it is due. -/
def woken (now : ℚ) (timer : ℕ) (s : State) : Option State :=
  (s.sleeping[timer]?).bind fun due => if due ≤ now then some ⟨s.limiter, s.sleeping.eraseIdx timer⟩ else none

/-- What happens at a time; a timer that is not due, or that there is not, does nothing. -/
def step (rate : Rate) (now : ℕ) : Op → State → State
  | .take, s => look rate now s
  | .ring timer, s => ((woken now timer s).map (look rate now)).getD s
  | .pause ms, s => ⟨s.limiter.paused now ms, s.sleeping⟩

/-- The histories of one limiter, the clock not before `t₀` at first. -/
abbrev History (rate : Rate) (t₀ : ℕ) (past : List (Moment Op State)) (s : State) : Prop :=
  Timeline (step rate) t₀ start past s

/-! ### Turns -/

/-- The state whose call looks at the clock. -/
def looking (now : ℕ) : Op → State → Option State
  | .take, s => some s
  | .ring timer, s => woken now timer s
  | .pause _, _ => none

/-- A call had its turn. -/
def hadTurn (m : Moment Op State) : Bool :=
  (looking m.time m.op m.before).any fun s => decide (s.limiter.turnAt (m.time : ℚ) ≤ (m.time : ℚ))

/-- A time that `pause` announced. -/
def Announces (m : Moment Op State) (resume : ℚ) : Prop := ∃ ms, m.op = .pause ms ∧ resume = m.time + ms

theorem woken_limiter {now : ℚ} {timer : ℕ} {s s' : State} (h : woken now timer s = some s') :
    s'.limiter = s.limiter := by
  obtain ⟨due, _, hdue⟩ := Option.bind_eq_some_iff.mp h
  split at hdue
  · rw [← Option.some.inj hdue]
  · cases hdue

/-- A timer that wakes no call. -/
theorem ring_nothing {now timer : ℕ} {s : State} (rate : Rate) (h : woken now timer s = none) :
    hadTurn ⟨now, .ring timer, s, step rate now (.ring timer) s⟩ = false ∧ step rate now (.ring timer) s = s := by
  constructor
  · show (woken now timer s).any _ = false
    rw [h]
    rfl
  · show ((woken now timer s).map (look rate now)).getD s = s
    rw [h]
    rfl

/-- A timer that wakes a call, which looks at the clock. -/
theorem ring_woken {now timer : ℕ} {s s' : State} (rate : Rate) (h : woken now timer s = some s') :
    hadTurn ⟨now, .ring timer, s, step rate now (.ring timer) s⟩ = decide (s'.limiter.turnAt now ≤ now) ∧
      step rate now (.ring timer) s = look rate now s' := by
  constructor
  · show (woken now timer s).any _ = _
    rw [h]
    rfl
  · show ((woken now timer s).map (look rate now)).getD s = _
    rw [h]
    rfl

/-- **What a step does to the limiter**: a turn, a pause, or nothing. -/
theorem step_limiter (rate : Rate) (now : ℕ) (op : Op) (s : State) :
    (hadTurn ⟨now, op, s, step rate now op s⟩ = true ∧ s.limiter.turnAt now ≤ now ∧
        (step rate now op s).limiter = s.limiter.taken rate now) ∨
      (hadTurn ⟨now, op, s, step rate now op s⟩ = false ∧ ∃ ms, op = .pause ms ∧
        (step rate now op s).limiter = s.limiter.paused now ms) ∨
      (hadTurn ⟨now, op, s, step rate now op s⟩ = false ∧ (∀ ms, op ≠ .pause ms) ∧
        (step rate now op s).limiter = s.limiter) := by
  have hlook : ∀ s' : State, s'.limiter = s.limiter →
      (s.limiter.turnAt now ≤ now → (look rate now s').limiter = s.limiter.taken rate now) ∧
        (¬s.limiter.turnAt now ≤ now → (look rate now s').limiter = s.limiter) := by
    intro s' hs'
    constructor
    · intro hturn
      unfold look
      rw [if_pos (hs' ▸ hturn), hs']
    · intro hturn
      unfold look
      rw [if_neg (hs' ▸ hturn), hs']
  cases op with
  | take =>
      have hhad : hadTurn ⟨now, .take, s, step rate now .take s⟩ = decide (s.limiter.turnAt now ≤ now) := rfl
      obtain ⟨hpos, hneg⟩ := hlook s rfl
      rw [hhad]
      by_cases hturn : s.limiter.turnAt now ≤ now
      · exact .inl ⟨decide_eq_true hturn, hturn, hpos hturn⟩
      · exact .inr (.inr ⟨decide_eq_false hturn, fun ms h => Op.noConfusion h, hneg hturn⟩)
  | ring timer =>
      cases hwoken : woken now timer s with
      | none =>
          obtain ⟨hhad, hstep⟩ := ring_nothing rate hwoken
          exact .inr (.inr ⟨hhad, fun ms h => Op.noConfusion h, by rw [hstep]⟩)
      | some s' =>
          have hsame := woken_limiter hwoken
          obtain ⟨hhad, hstep⟩ := ring_woken rate hwoken
          obtain ⟨hpos, hneg⟩ := hlook s' hsame
          rw [hhad, hstep, hsame]
          by_cases hturn : s.limiter.turnAt now ≤ now
          · exact .inl ⟨decide_eq_true hturn, hturn, hpos hturn⟩
          · exact .inr (.inr ⟨decide_eq_false hturn, fun ms h => Op.noConfusion h, hneg hturn⟩)
  | pause ms => exact .inr (.inl ⟨rfl, ms, rfl, rfl⟩)

/-! ### The invariant -/

/-- A later moment keeps its distance to an earlier one: a turn is an interval behind a turn, and not before
the end of a pause. -/
def Apart (rate : Rate) (later earlier : Moment Op State) : Prop :=
  hadTurn later = true → (hadTurn earlier = true → earlier.time + rate.interval ≤ later.time) ∧
    ∀ resume, Announces earlier resume → resume ≤ later.time

/-- **Nothing past is ahead of what the limiter remembers.** -/
structure Kept (rate : Rate) (past : List (Moment Op State)) (s : State) : Prop where
  turns : ∀ m ∈ past, hadTurn m = true → m.time + rate.interval ≤ s.limiter.next
  pauses : ∀ m ∈ past, ∀ resume, Announces m resume → resume ≤ s.limiter.pausedUntil
  apart : past.Pairwise (Apart rate)

theorem interval_pos (rate : Rate) : 0 < rate.interval := div_pos (by norm_num) rate.positive

/-- A turn is not before the next one, nor before the end of a pause. -/
theorem turnAt_le {l : Limiter} {now : ℚ} (h : l.turnAt now ≤ now) : l.next ≤ now ∧ l.pausedUntil ≤ now :=
  ⟨(le_max_left _ _).trans ((le_max_right _ _).trans h), (le_max_right _ _).trans ((le_max_right _ _).trans h)⟩

/-- **A step keeps the invariant.** -/
theorem kept_step {rate : Rate} {past : List (Moment Op State)} {s : State} (h : Kept rate past s) (now : ℕ)
    (op : Op) : Kept rate (⟨now, op, s, step rate now op s⟩ :: past) (step rate now op s) := by
  rcases step_limiter rate now op s with ⟨hturn, hat, hlimiter⟩ | ⟨hturn, ms, rfl, hlimiter⟩ |
      ⟨hturn, hop, hlimiter⟩
  · -- a turn: the past is behind the clock, and the clock is an interval before the next turn
    obtain ⟨hnext, hpaused⟩ := turnAt_le hat
    have hno : ∀ ms, op ≠ .pause ms := by
      rintro ms rfl
      cases hturn
    constructor
    · intro m hm hhad
      rw [hlimiter]
      rcases List.mem_cons.mp hm with rfl | hm
      · exact le_rfl
      · have hbefore := h.turns m hm hhad
        have hpos := interval_pos rate
        show (m.time : ℚ) + rate.interval ≤ now + rate.interval
        linarith
    · intro m hm resume hann
      rw [hlimiter]
      rcases List.mem_cons.mp hm with rfl | hm
      · obtain ⟨ms, hms, _⟩ := hann
        exact absurd hms (hno ms)
      · exact h.pauses m hm resume hann
    · refine List.pairwise_cons.mpr ⟨fun m hm _ => ⟨fun hhad => ?_, fun resume hann => ?_⟩, h.apart⟩
      · exact (h.turns m hm hhad).trans hnext
      · exact (h.pauses m hm resume hann).trans hpaused
  · constructor
    · intro m hm hhad
      rw [hlimiter]
      rcases List.mem_cons.mp hm with rfl | hm
      · rw [hturn] at hhad
        cases hhad
      · exact h.turns m hm hhad
    · intro m hm resume hann
      rw [hlimiter]
      rcases List.mem_cons.mp hm with rfl | hm
      · obtain ⟨ms', hms, rfl⟩ := hann
        obtain rfl := Op.pause.inj hms
        exact le_max_right _ _
      · exact (h.pauses m hm resume hann).trans (le_max_left _ _)
    · refine List.pairwise_cons.mpr ⟨fun m _ hhad => ?_, h.apart⟩
      rw [hturn] at hhad
      cases hhad
  · constructor
    · intro m hm hhad
      rw [hlimiter]
      rcases List.mem_cons.mp hm with rfl | hm
      · rw [hturn] at hhad
        cases hhad
      · exact h.turns m hm hhad
    · intro m hm resume hann
      rw [hlimiter]
      rcases List.mem_cons.mp hm with rfl | hm
      · obtain ⟨ms, hms, _⟩ := hann
        exact absurd hms (hop ms)
      · exact h.pauses m hm resume hann
    · refine List.pairwise_cons.mpr ⟨fun m _ hhad => ?_, h.apart⟩
      rw [hturn] at hhad
      cases hhad

/-- It holds of every history. -/
theorem kept_history {rate : Rate} {t₀ : ℕ} {past : List (Moment Op State)} {s : State}
    (h : History rate t₀ past s) : Kept rate past s := by
  refine Timeline.invariant (fun past s => Kept rate past s) ?_ (fun past s t op _ hkept _ => ?_) h
  · constructor
    · exact fun m hm => absurd hm List.not_mem_nil
    · exact fun m hm => absurd hm List.not_mem_nil
    · exact List.Pairwise.nil
  · exact kept_step hkept t op

/-! ### The pace -/

/-- The times of the turns, latest first. -/
def turnTimes (past : List (Moment Op State)) : List ℚ := (past.filter hadTurn).map fun m => (m.time : ℚ)

theorem spaced_turnTimes {rate : Rate} {past : List (Moment Op State)} (h : past.Pairwise (Apart rate)) :
    Spaced rate.interval (turnTimes past) := by
  have hturns := List.Pairwise.filter hadTurn h
  refine List.pairwise_map.mpr (List.Pairwise.imp_of_mem (fun hlater hearlier hapart => ?_) hturns)
  exact (hapart (List.mem_filter.mp hlater).2).1 (List.mem_filter.mp hearlier).2

/-- Ten turns a second. -/
def tenPerSecond : Rate := ⟨10, by norm_num⟩

/-- Two calls, a pause while the second sleeps, and the ring of its timer, early and late (latest first). -/
def schedule : List (ℕ × Op) :=
  [(1650, .ring 0), (1100, .ring 0), (1050, .pause 500), (1000, .take), (1000, .take)]

/-- The calls of `take`. -/
def calls (past : List (Moment Op State)) : ℕ := past.countP fun m => decide (m.op = .take)

/-- One look gives the turn or leaves the call asleep. -/
theorem look_sleeping (rate : Rate) (now : ℚ) (s : State) :
    (look rate now s).sleeping.length + (if s.limiter.turnAt now ≤ now then 1 else 0) = s.sleeping.length + 1 := by
  unfold look
  split
  · rfl
  · rw [List.length_append]
    rfl

/-- **Each call had its turn or sleeps.** -/
theorem calls_counted {rate : Rate} {t₀ : ℕ} {past : List (Moment Op State)} {s : State}
    (h : History rate t₀ past s) : past.countP hadTurn + s.sleeping.length = calls past := by
  refine Timeline.invariant (fun past s => past.countP hadTurn + s.sleeping.length = calls past) rfl
    (fun past s t op _ hcount _ => ?_) h
  unfold calls at hcount ⊢
  rw [List.countP_cons, List.countP_cons]
  cases op with
  | take =>
      have hhad : hadTurn ⟨t, .take, s, step rate t .take s⟩ = decide (s.limiter.turnAt t ≤ t) := rfl
      have hlook := look_sleeping rate t s
      have hstep : (step rate t .take s).sleeping = (look rate t s).sleeping := rfl
      rw [hhad, hstep]
      simp only [decide_eq_true_eq, if_true]
      omega
  | ring timer =>
      cases hwoken : woken t timer s with
      | none =>
          obtain ⟨hhad, hstep⟩ := ring_nothing rate hwoken
          rw [hhad, hstep]
          simpa using hcount
      | some s' =>
          have hlength : s'.sleeping.length + 1 = s.sleeping.length := by
            obtain ⟨due, hdue, hs'⟩ := Option.bind_eq_some_iff.mp hwoken
            split at hs'
            · have hlt := (List.getElem?_eq_some_iff.mp hdue).1
              rw [← Option.some.inj hs', List.length_eraseIdx_of_lt hlt]
              omega
            · cases hs'
          obtain ⟨hhad, hstep⟩ := ring_woken rate hwoken
          have hlook := look_sleeping rate t s'
          rw [hhad, hstep]
          simp only [decide_eq_true_eq, reduceCtorEq, if_false]
          omega
  | pause ms =>
      have hhad : hadTurn ⟨t, .pause ms, s, step rate t (.pause ms) s⟩ = false := rfl
      have hstep : (step rate t (.pause ms) s).sleeping = s.sleeping := rfl
      rw [hhad, hstep]
      simpa using hcount

end TransportBackend.RateLimiter
