import TransportBackend.TripService

/-!
# Sequential runs of the trip operations

The operations of `CargoTripService` and `CargoListingService` run one after another, each whole and
each at its own moment, later than the one before.  A run is a `History`: its moments, latest first,
each with the store before and after it, so that whatever is said about the past (when did this trip
start, who turned this request down) is a function of the moments and needs no extra state.

* `programOf` — what each operation runs;
* `History` — the runs whose every moment meets a condition;
* `History.invariant` — the induction over a run, done once.
-/

namespace TransportBackend.TripRun

open TransportBackend.AtomicProgram
open TransportBackend.TripFareRules
open TransportBackend.TripStore
open TransportBackend.ListingService
open TransportBackend.TripService

/-- An operation with its arguments and with what it is answered elsewhere. -/
inductive TripOp where
  | request (answers : RequestAnswers) (driverUserId listingId : ℕ) (source : Option UsageChannel)
  | cancel (broker : Bool) (driverUserId requestId : ℕ)
  | decide (broker : Bool) (companyUserId requestId : ℕ) (accept : Bool) (deal : Deal)
  | offer (isDriver : Bool) (companyUserId listingId driverUserId : ℕ)
      (fareInput : Option TripFareInput)
  | respondOffer (driverUserId requestId : ℕ) (accept : Bool)
  | expireOffers
  | remindDeliveries (days : ℕ)
  | deliver (broker : Bool) (userId requestId : ℕ) (fareInput : Option TripFareInput)
  | cancelTrip (companyUserId requestId : ℕ)
  | rejectDeliveryReport (companyUserId requestId : ℕ)
  | setStatus (userId listingId : ℕ) (status : CargoListingStatus)
  | announceNow (recipients : Bool) (userId listingId : ℕ)

/-- A method whose result nobody waits for. -/
def unanswered {α : Type} (p : Trip α) : Trip Unit := do
  let _ ← p
  pure ()

/-- What an operation runs. -/
def programOf (cfg : Services) : TripOp → Trip Unit
  | .request answers driver listing source => unanswered (request cfg answers driver listing source)
  | .cancel broker driver id => unanswered (cancel broker driver id)
  | .decide broker company id accept deal => unanswered (decide cfg broker company id accept deal)
  | .offer isDriver company listing driver fare =>
      unanswered (offer cfg isDriver company listing driver fare)
  | .respondOffer driver id accept => unanswered (respondOffer driver id accept)
  | .expireOffers => unanswered expireOffers
  | .remindDeliveries days => unanswered (remindDeliveries days)
  | .deliver broker user id fare => unanswered (deliver cfg broker user id fare)
  | .cancelTrip company id => unanswered (cancelTrip company id)
  | .rejectDeliveryReport company id => unanswered (rejectDeliveryReport company id)
  | .setStatus user listing status => setStatus none user listing status
  | .announceNow recipients user listing => announceNow recipients user listing

/-- The store at a later time. -/
def atTime (t : ℕ) (s : Store) : Store := { s with clock := t }

/-- An operation run whole at time `t`, to its end or to the error it throws. -/
def step (cfg : Services) (t : ℕ) (op : TripOp) (s : Store) : Except ServiceError Unit × Store :=
  (programOf cfg op).run exec (atTime t s)

/-- One operation of a run: when it ran and the store before and after it. -/
structure Moment where
  time : ℕ
  op : TripOp
  before : Store
  after : Store

/-- The runs from `s₀` whose every moment meets `Ok`, with their moments (latest first). -/
inductive History (cfg : Services) (Ok : List Moment → Moment → Prop) (s₀ : Store) :
    List Moment → Store → Prop where
  | nil : History cfg Ok s₀ [] s₀
  | snoc {past : List Moment} {s : Store} {t : ℕ} {op : TripOp} :
      History cfg Ok s₀ past s → s.clock < t → Ok past ⟨t, op, s, (step cfg t op s).2⟩ →
      History cfg Ok s₀ (⟨t, op, s, (step cfg t op s).2⟩ :: past) (step cfg t op s).2

/-- No condition on the moments. -/
def Unrestricted (_ : List Moment) (_ : Moment) : Prop := True

variable {cfg : Services} {Ok : List Moment → Moment → Prop} {s₀ s : Store} {past : List Moment}

/-- **The invariant rule of a run.** -/
theorem History.invariant (I : List Moment → Store → Prop) (h0 : I [] s₀)
    (hstep : ∀ past s t op, History cfg Ok s₀ past s → I past s → s.clock < t →
      Ok past ⟨t, op, s, (step cfg t op s).2⟩ →
      I (⟨t, op, s, (step cfg t op s).2⟩ :: past) (step cfg t op s).2)
    (h : History cfg Ok s₀ past s) : I past s := by
  induction h with
  | nil => exact h0
  | snoc hrun ht hok ih => exact hstep _ _ _ _ hrun ih ht hok

theorem exec_clock (c : TripCmd) (s : Store) : (exec c s).2.clock = s.clock := by
  cases c <;> rfl

/-- An operation leaves the clock at the moment it ran. -/
@[simp] theorem step_clock (cfg : Services) (t : ℕ) (op : TripOp) (s : Store) :
    (step cfg t op s).2.clock = t := by
  have hrun : ∀ (p : Trip Unit) (s : Store), (p.run exec s).2.clock = s.clock := by
    intro p
    induction p with
    | ret a => intro s; rfl
    | throw e => intro s; rfl
    | call c k ih => intro s; exact (ih _ _).trans (exec_clock c s)
  exact hrun _ (atTime t s)

/-! ### Replaying a run -/

/-- The time of the latest operation of a schedule (latest first). -/
def lastTime (clock : ℕ) : List (ℕ × TripOp) → ℕ
  | [] => clock
  | (t, _) :: _ => t

/-- Each operation of the schedule is later than the one before. -/
def Ordered (clock : ℕ) : List (ℕ × TripOp) → Prop
  | [] => True
  | (t, _) :: earlier => lastTime clock earlier < t ∧ Ordered clock earlier

instance decidableOrdered (clock : ℕ) : (ops : List (ℕ × TripOp)) → Decidable (Ordered clock ops)
  | [] => .isTrue trivial
  | (t, _) :: earlier =>
      match Nat.decLt (lastTime clock earlier) t, decidableOrdered clock earlier with
      | .isTrue h, .isTrue h' => .isTrue ⟨h, h'⟩
      | .isFalse h, _ => .isFalse fun hc => h hc.1
      | _, .isFalse h' => .isFalse fun hc => h' hc.2

/-- A schedule (latest first) replayed: its moments and the store it leaves. -/
def replay (cfg : Services) (s₀ : Store) : List (ℕ × TripOp) → List Moment × Store
  | [] => ([], s₀)
  | (t, op) :: earlier =>
      let s := (replay cfg s₀ earlier).2
      (⟨t, op, s, (step cfg t op s).2⟩ :: (replay cfg s₀ earlier).1, (step cfg t op s).2)

theorem replay_clock (cfg : Services) (s₀ : Store) (ops : List (ℕ × TripOp)) :
    (replay cfg s₀ ops).2.clock = lastTime s₀.clock ops := by
  cases ops with
  | nil => rfl
  | cons op earlier => exact step_clock cfg op.1 op.2 _

/-- Every moment meets the condition. -/
def AllMeet (Ok : List Moment → Moment → Prop) : List Moment → Prop
  | [] => True
  | m :: past => Ok past m ∧ AllMeet Ok past

/-- A replayed schedule whose moments meet the condition is such a run. -/
theorem replay_meets (cfg : Services) (s₀ : Store) {ops : List (ℕ × TripOp)}
    (h : Ordered s₀.clock ops) (hok : AllMeet Ok (replay cfg s₀ ops).1) :
    History cfg Ok s₀ (replay cfg s₀ ops).1 (replay cfg s₀ ops).2 := by
  induction ops with
  | nil => exact .nil
  | cons op earlier ih =>
      refine .snoc (ih h.2 hok.2) ?_ hok.1
      rw [replay_clock]
      exact h.1

/-- A replayed schedule is a run. -/
theorem replay_history (cfg : Services) (s₀ : Store) {ops : List (ℕ × TripOp)}
    (h : Ordered s₀.clock ops) :
    History cfg Unrestricted s₀ (replay cfg s₀ ops).1 (replay cfg s₀ ops).2 := by
  refine replay_meets cfg s₀ h ?_
  generalize (replay cfg s₀ ops).1 = past
  induction past with
  | nil => trivial
  | cons m past ih => exact ⟨trivial, ih⟩

/-- A store with one open load and no requests: load 1 of company 10. -/
def oneLoad : Store where
  listings := KeyedTable.Table.empty.put
    { id := 1, sourceMessageId := "m", publisherUserId := 10, companyName := none,
      contactPhones := [], tripType := .domestic, status := .opened, takenAt := none,
      announcedAt := some 0 }
  requests := .empty
  fares := .empty
  commissionPercent := 0
  cached := none
  clock := 0
  outbox := []

/-- What a driver's own request is answered elsewhere when nothing stands in its way. -/
def driverAnswers : RequestAnswers where
  broker := false
  driverFor := .error ""
  missing := []
  canSee := true
  border := .ok none
  useRequest := .ok false

end TransportBackend.TripRun
