import TransportBackend.BrokerCredit

/-!
# A broker pays once per request it has

Taps of one broker on its loads: requests and cancellations, statement by statement.  A charge comes
before the save, a save that throws is refunded, and a second new row is refused by the unique index.
A row that is reopened has no such guard: two taps that both read it cancelled both pay.

* `Purse`, `purseMonitor` — what a call owes: one save or one refund for each charge;
* `turnedPending` — the rows of the broker that one step turned pending;
* `pays_once_iff` — **with no call in progress the credits consumed are the rows that turned pending
  exactly when no request's save found its row pending already**.
-/

namespace TransportBackend.BrokerSpending

open TransportBackend.AtomicProgram
open TransportBackend.AtomicProgram.Prog
open TransportBackend.CommandSum
open TransportBackend.InterleavedRun
open TransportBackend.KeyedTable
open TransportBackend.MonitoredProgram
open TransportBackend.TripStore (ServiceError UsageChannel CargoRequest TripCmd Writer SaveResult Tables)
open TransportBackend.TripService (RequestAnswers Services saveOrInsert)
open TransportBackend.BrokerStore
open TransportBackend.BrokerService
open TransportBackend.BrokerCredit (unanswered useOf refundOf)

/-! ### The calls -/

/-- The taps of one broker. -/
inductive SpendCall where
  | request (answers : RequestAnswers) (listingId : ℕ) (source : Option UsageChannel)
  | cancel (requestId : ℕ)

/-- What a tap runs: every optional service is there, and brokers are bound by the policy. -/
def spendProgram (fares : Bool) (brokerUserId : ℕ) : SpendCall → Broker Unit
  | .request answers listingId source =>
      unanswered (requestCharged ⟨fares, true⟩ false answers brokerUserId listingId source)
  | .cancel requestId => unanswered (trip (TripService.cancel true brokerUserId requestId))

/-- The row is there and waits for the company. -/
def isPending (s : Store) (id : ℕ) : Bool := (s.trips.requests.get id).any (·.status = .pending)

/-- This row of the broker turned pending. -/
def turned (brokerUserId : ℕ) (s : Store) (r : CargoRequest) : ℤ :=
  if r.driverUserId = brokerUserId ∧ r.status = .pending ∧ isPending s r.id = false then 1 else 0

/-- How many rows of the broker turned pending in one step. -/
def turnedPending (brokerUserId : ℕ) (s s' : Store) : ℤ :=
  (s'.trips.requests.rows.map (turned brokerUserId s)).sum

/-- Any number of taps on both stores, saves failing or not.  The counter adds up the rows that turn
pending. -/
def spendMachine (fares : Bool) (brokerUserId : ℕ) : Machine Resp ServiceError (Store × ℤ) :=
  Machine.counting
    { Choice := Bool
      Outside := ℕ
      Call := SpendCall
      exec := fun fails c s => if waits c s then none else some (exec ⟨none, fails⟩ c s)
      outside := fun passed s =>
        some { s with trips := { s.trips with clock := s.trips.clock + passed } }
      begin := fun call s => some (spendProgram fares brokerUserId call, s) }
    (turnedPending brokerUserId)

/-- The credits consumed: charges that succeeded less refunds. -/
def consumed (brokerUserId : ℕ) (tr : List (Event Resp)) : ℤ :=
  Tally (useOf brokerUserId) tr - Tally (refundOf brokerUserId) tr

/-- A request's save finds its row pending already. -/
def savesPending (s : Store) : Event Resp → Bool
  | .act _ (.inl (.saveRequest .request _ e)) .saved => isPending s e.id
  | _ => false

/-- A request was saved. -/
def savedOf : Event Resp → ℤ
  | .act _ (.inl (.insertRequest _ _)) saved => if saved.isSome then 1 else 0
  | .act _ (.inl (.saveRequest .request _ _)) result => if result = .saved then 1 else 0
  | _ => 0

/-! ### What a tap owes -/

/-- Nothing yet, one charge to be saved or refunded, or settled. -/
inductive Purse where
  | untouched
  | charged
  | settled
  deriving DecidableEq

/-- A charge leads to a save or a refund. -/
def purseNext (q : Purse) : (c : BrokerCmd) → Resp c → Purse
  | .inr (.takeCredit _), taken => if taken then .charged else q
  | .inr (.refundCredit _), _ => .settled
  | .inl (.insertRequest _ _), saved => if saved.isSome then .settled else q
  | .inl (.saveRequest .request _ _), result => if result = .saved then .settled else q
  | _, _ => q

/-- What a tap may issue where it stands. -/
def purseAllowed (brokerUserId : ℕ) (q : Purse) : BrokerCmd → Prop
  | .inr (.takeCredit u) => q = .untouched ∧ u = brokerUserId
  | .inr (.refundCredit u) => q = .charged ∧ u = brokerUserId
  | .inl (.insertRequest _ e) => q = .charged ∧ e.status = .pending ∧ e.driverUserId = brokerUserId
  | .inl (.saveRequest .request _ e) =>
      q = .charged ∧ e.status = .pending ∧ e.driverUserId = brokerUserId
  | .inl (.saveRequest _ _ e) => e.status ≠ .pending
  | _ => True

/-- The broker is one, requests are sold, and a driver's row is the driver's. -/
def purseAnswers (brokerUserId : ℕ) (_ : Purse) : (c : BrokerCmd) → Resp c → Prop
  | .inr (.isBroker u), broker => u = brokerUserId → broker = true
  | .inr .getPolicy, policy => policy.packagesEnabled = true
  | .inl (.findByListingAndDriver _ driver), found => ∀ r ∈ found, r.driverUserId = driver
  | _, _ => True

/-- The monitor of one tap. -/
def purseMonitor (brokerUserId : ℕ) : Monitor Resp Purse where
  allowed := purseAllowed brokerUserId
  answers := purseAnswers brokerUserId
  next := purseNext

/-! ### Every tap keeps to it -/

section Accepts

variable {α : Type} {u : ℕ} {q : Purse}

/-- The trip service's commands that neither save a request of the broker nor make one pending. -/
def Aside : TripCmd → Prop
  | .insertRequest _ _ => False
  | .saveRequest w _ e => w ≠ .request ∧ e.status ≠ .pending
  | _ => True

theorem unseen_trip {p : TripStore.Trip α} (h : p.Within Aside (fun _ _ => True) (fun _ => True)) :
    Unseen (purseMonitor u) (trip p) := by
  have haside : (trip p).Within (fun c => c.elim Aside fun _ => False) (fun _ _ => True)
      (fun _ => True) := (within_onLeft p).mpr h
  refine keeps_of_within ?_ haside
  intro c hc q
  cases c with
  | inr c => exact hc.elim
  | inl c =>
      cases c with
      | insertRequest w e => exact hc.elim
      | saveRequest w read e =>
          obtain ⟨hw, hstatus⟩ := hc
          cases w <;> first | exact absurd rfl hw | exact ⟨hstatus, fun _ _ => rfl⟩
      | _ => exact ⟨trivial, fun _ _ => rfl⟩

/-- A part the purse does not see, then the rest. -/
theorem accepts_bind_unseen {β : Type} {p : Broker α} {f : α → Broker β}
    {Q : Except ServiceError β → Purse → Prop} (hp : Unseen (purseMonitor u) p)
    (hE : ∀ e, Q (.error e) q) (hf : ∀ a, Accepts (purseMonitor u) (f a) q Q) :
    Accepts (purseMonitor u) (p >>= f) q Q := by
  rw [accepts_bind]
  apply Unseen.accepts hp
  intro out
  cases out with
  | ok a => exact hf a
  | error e => exact hE e

theorem accepts_access (c : AccessCmd) {Q : Except ServiceError (AccessResp c) → Purse → Prop} :
    Accepts (α := no_index (AccessResp c)) (purseMonitor u) (access c) q Q ↔
      purseAllowed u q (.inr c) ∧
        ∀ r, purseAnswers u q (.inr c) r → Q (.ok r) (purseNext q (.inr c) r) := Iff.rfl

/-- **The charge**: one request is taken, or the tap is refused. -/
theorem accepts_chargeIf :
    Accepts (purseMonitor u) (chargeIf true false u) .untouched
      (outcome (fun charged q' => charged = true ∧ q' = .charged) (fun _ q' => q' = .untouched)) := by
  show Accepts (purseMonitor u) (useRequest false u) .untouched _
  simp only [useRequest, accepts_bind, accepts_access, accepts_ite, accepts_refuseIf, accepts_pure,
    outcome_ok, outcome_error, Bool.false_eq_true, if_false]
  refine ⟨trivial, fun broker hbroker => ⟨fun _ => ⟨trivial, fun policy hsold => ?_⟩, ?_⟩⟩
  · refine ⟨fun _ => ⟨⟨rfl, rfl⟩, fun taken _ => ?_⟩, fun hnot => absurd hsold hnot⟩
    cases taken with
    | true => exact ⟨fun h => absurd h.symm Bool.false_ne_true, fun _ => ⟨trivial, rfl⟩⟩
    | false => exact ⟨fun _ => rfl, fun h => absurd rfl h⟩
  · exact fun hnot => absurd (hbroker rfl) hnot

theorem accepts_saveOrInsert {existing : Option CargoRequest} {created : CargoRequest}
    {change : CargoRequest → CargoRequest} (hpending : ∀ r, (change r).status = .pending)
    (hdriver : ∀ r, (change r).driverUserId = r.driverUserId)
    (hold : ∀ r ∈ existing, r.driverUserId = u) (hcreated : created.driverUserId = u) :
    Accepts (purseMonitor u) (trip (saveOrInsert .request existing created change)) .charged
      (outcome (fun _ q' => q' = .settled) (fun _ q' => q' = .charged)) := by
  rw [trip, accepts_onLeft]
  cases existing with
  | none =>
      refine ⟨⟨rfl, hpending _, (hdriver _).trans hcreated⟩, fun saved _ => ?_⟩
      cases saved <;> rfl
  | some old =>
      refine ⟨⟨rfl, hpending _, (hdriver _).trans (hold old rfl)⟩, fun result _ => ?_⟩
      cases result <;> rfl

/-- **The save**: done, or refunded. -/
theorem accepts_saveOrRefund {save : Broker CargoRequest}
    (h : Accepts (purseMonitor u) save .charged
      (outcome (fun _ q' => q' = .settled) (fun _ q' => q' = .charged))) :
    Accepts (purseMonitor u) (saveOrRefund true u save) .charged (fun _ q' => q' = .settled) := by
  rw [saveOrRefund, accepts_bind, accepts_attempt]
  apply accepts_mono h
  intro out q' hout
  cases out with
  | ok saved => exact hout
  | error e =>
      obtain rfl : q' = .charged := hout
      exact ⟨⟨rfl, rfl⟩, fun _ _ => rfl⟩

theorem unseen_reload (id : ℕ) : Unseen (purseMonitor u) (trip (TripService.reload id)) := by
  apply unseen_trip
  simp only [TripService.reload, TripStore.issue, within_bind, within_perform, within_orThrow]
  exact ⟨trivial, fun _ _ _ _ => trivial⟩

theorem unseen_notify (userId : ℕ) (key : TripStore.NoticeKey) (id : ℕ) :
    Unseen (purseMonitor u) (trip (TripService.notify userId key id)) :=
  unseen_trip ⟨trivial, fun _ _ => trivial⟩

theorem accepts_requestSaved {fares : Bool} {answers : RequestAnswers}
    {listing : TripStore.CargoListing} {existing : Option CargoRequest}
    {change : CargoRequest → CargoRequest} (hpending : ∀ r, (change r).status = .pending)
    (hdriver : ∀ r, (change r).driverUserId = r.driverUserId)
    (hold : ∀ r ∈ existing, r.driverUserId = u) :
    Accepts (purseMonitor u) (requestSaved ⟨fares, true⟩ false answers u listing existing change)
      .untouched (fun _ q' => q' ≠ .charged) := by
  rw [requestSaved, accepts_bind]
  apply accepts_mono accepts_chargeIf
  intro out q' hout
  cases out with
  | error e =>
      obtain rfl : q' = .untouched := hout
      exact Purse.noConfusion
  | ok charged =>
      obtain ⟨rfl, rfl⟩ := hout
      rw [outcome_ok, accepts_bind]
      apply accepts_mono (accepts_saveOrRefund (accepts_saveOrInsert hpending hdriver hold rfl))
      rintro out' q'' rfl
      have hsettled : ∀ e : ServiceError, (fun (_ : Except ServiceError CargoRequest) q' =>
          q' ≠ Purse.charged) (.error e) Purse.settled := fun _ => Purse.noConfusion
      cases out' with
      | error e => exact hsettled e
      | ok saved =>
          rw [outcome_ok]
          refine accepts_bind_unseen (unseen_reload _) hsettled fun full => ?_
          exact accepts_bind_unseen (unseen_notify _ _ _) hsettled fun _ => Purse.noConfusion

theorem within_requestFor (answers : RequestAnswers) :
    (TripService.requestFor answers).Within Aside (fun _ _ => True) (fun _ => True) := by
  unfold TripService.requestFor
  split
  · rw [within_bind]
    cases answers.driverFor <;> trivial
  · simp only [within_bind, within_refuseIf, within_pure]
    exact fun _ => trivial

theorem within_requestAllowed (existing : Option CargoRequest) (listingId : ℕ) :
    (TripService.requestAllowed existing listingId).Within Aside (fun _ _ => True)
      (fun _ => True) := by
  simp only [TripService.requestAllowed, TripStore.dateNow, TripStore.issue, within_bind,
    within_perform, within_refuseIf]
  exact fun _ => ⟨trivial, fun _ _ => ⟨trivial, fun _ _ _ _ _ => trivial⟩⟩

theorem unseen_orThrow (e : ServiceError) (o : Option α) :
    Unseen (purseMonitor u) (.orThrow e o : Broker α) := by
  intro q
  rw [accepts_orThrow]
  exact ⟨fun _ => rfl, fun _ _ => rfl⟩

theorem unseen_refuseIf (p : Prop) [Decidable p] (e : ServiceError) :
    Unseen (purseMonitor u) (.refuseIf p e : Broker Unit) := by
  intro q
  rw [accepts_refuseIf]
  exact ⟨fun _ => rfl, fun _ => rfl⟩

/-- **A request** ends with nothing owed. -/
theorem accepts_requestCharged (fares : Bool) (answers : RequestAnswers) (listingId : ℕ)
    (source : Option UsageChannel) :
    Accepts (purseMonitor u) (requestCharged ⟨fares, true⟩ false answers u listingId source)
      .untouched (fun _ q' => q' ≠ .charged) := by
  have hthrow : ∀ e : ServiceError, (fun (_ : Except ServiceError CargoRequest) q' =>
      q' ≠ Purse.charged) (.error e) Purse.untouched := fun _ => Purse.noConfusion
  refine accepts_bind_unseen (unseen_trip (within_requestFor answers)) hthrow fun driverFor => ?_
  refine accepts_bind_unseen (unseen_trip ⟨trivial, fun _ _ => trivial⟩) hthrow fun found => ?_
  refine accepts_bind_unseen (unseen_orThrow _ _) hthrow fun listing => ?_
  refine accepts_bind_unseen (unseen_refuseIf _ _) hthrow fun _ => ?_
  refine accepts_bind_unseen (unseen_refuseIf _ _) hthrow fun _ => ?_
  refine accepts_bind_unseen (unseen_refuseIf _ _) hthrow fun _ => ?_
  refine accepts_bind_unseen ?_ hthrow fun border => ?_
  · cases answers.border <;> exact fun _ => rfl
  · rw [accepts_bind, trip, accepts_onLeft]
    refine ⟨trivial, fun existing hown => ?_⟩
    refine accepts_bind_unseen (unseen_trip (within_requestAllowed existing listingId)) hthrow
      fun _ => ?_
    exact accepts_requestSaved (fun _ => rfl) (fun _ => rfl) hown

theorem within_cancel (requestId : ℕ) :
    (TripService.cancel true u requestId).Within Aside (fun _ _ => True) (fun _ => True) := by
  simp only [TripService.cancel, TripService.owned, TripService.saveRequest, TripService.reload,
    TripService.notify, TripStore.issue, within_bind, within_perform, within_orThrow,
    within_refuseIf, within_pure]
  refine ⟨trivial, fun _ _ found _ _ => ⟨⟨by decide, by simp [CargoRequest.withdrawn]⟩, ?_⟩⟩
  exact fun _ _ _ => ⟨trivial, fun _ _ _ _ => ⟨trivial, fun _ _ => trivial⟩⟩

/-- **Every tap ends with nothing owed.** -/
theorem accepts_spendProgram (fares : Bool) (call : SpendCall) :
    Accepts (purseMonitor u) (spendProgram fares u call) .untouched (fun _ q' => q' ≠ .charged) := by
  cases call with
  | request answers listingId source =>
      simp only [spendProgram, unanswered, accepts_bind]
      apply accepts_mono (accepts_requestCharged fares answers listingId source)
      intro out q' hq'
      cases out <;> exact hq'
  | cancel requestId =>
      simp only [spendProgram, unanswered, accepts_bind]
      apply Unseen.accepts (unseen_trip (within_cancel requestId))
      intro out
      cases out <;> exact Purse.noConfusion

end Accepts

/-! ### What one statement does to the broker's rows -/

section OneStatement

variable {u : ℕ} {s s' : Store}

/-- No row turns pending by standing still. -/
theorem sum_turned (u : ℕ) (s : Store) : (s.trips.requests.rows.map (turned u s)).sum = 0 := by
  apply List.sum_eq_zero
  intro x hx
  obtain ⟨r, hr, rfl⟩ := List.mem_map.mp hx
  apply if_neg
  rintro ⟨_, hstatus, hnot⟩
  rw [isPending, Table.mem_rows.mp hr] at hnot
  exact absurd (decide_eq_true hstatus) (Bool.eq_false_iff.mp hnot)

theorem turnedPending_same (h : s'.trips.requests = s.trips.requests) :
    turnedPending u s s' = 0 := by
  rw [turnedPending, h]
  exact sum_turned u s

theorem turnedPending_put {r : CargoRequest} (h : s'.trips.requests = s.trips.requests.put r) :
    turnedPending u s s' = turned u s r := by
  have hold : ((s.trips.requests.get r.id).map (turned u s)).getD 0 = 0 := by
    cases hget : s.trips.requests.get r.id with
    | none => rfl
    | some old =>
        apply if_neg
        rintro ⟨_, hstatus, hnot⟩
        rw [isPending, Table.key_of_get hget, hget] at hnot
        exact absurd (decide_eq_true hstatus) (Bool.eq_false_iff.mp hnot)
  rw [turnedPending, h, Table.sum_put, sum_turned, hold]
  ring

theorem turned_of_status {r : CargoRequest} (h : r.status ≠ .pending) : turned u s r = 0 :=
  if_neg fun hand => h hand.2.1

theorem turned_of_pending {r : CargoRequest} (hdriver : r.driverUserId = u)
    (hstatus : r.status = .pending) :
    turned u s r = if isPending s r.id then 0 else 1 := by
  unfold turned
  cases isPending s r.id <;> simp [hdriver, hstatus]

/-- A save that is refused, by the database or by an index, or the row put in the table. -/
theorem exec_saveRequest (fails : Bool) (w : Writer) (read e : CargoRequest) (s : Store) :
    exec ⟨none, fails⟩ (.inl (.saveRequest w read e)) s = (SaveResult.uniqueViolation, s) ∨
      ∃ s', s'.trips.requests =
          s.trips.requests.put (e.stamped (s.trips.requests.get e.id) s.trips.clock) ∧
        exec ⟨none, fails⟩ (.inl (.saveRequest w read e)) s = (SaveResult.saved, s') := by
  cases fails with
  | true => exact .inl rfl
  | false =>
      have hexec : exec ⟨none, false⟩ (.inl (.saveRequest w read e)) s =
          ((s.trips.saveRequest e s.trips.clock).1,
            { s with trips := s.trips.setTables (s.trips.saveRequest e s.trips.clock).2 }) := rfl
      rw [hexec, Tables.saveRequest]
      split
      · exact .inl rfl
      · exact .inr ⟨_, rfl, rfl⟩

theorem exec_insertRequest (fails : Bool) (w : Writer) (e : CargoRequest) (s : Store) :
    exec ⟨none, fails⟩ (.inl (.insertRequest w e)) s = ((none : Option CargoRequest), s) ∨
      ∃ s', s'.trips.requests =
          s.trips.requests.put (e.inserted s.trips.requests.fresh s.trips.clock) ∧
        exec ⟨none, fails⟩ (.inl (.insertRequest w e)) s =
          (some (e.inserted s.trips.requests.fresh s.trips.clock), s') := by
  cases fails with
  | true => exact .inl rfl
  | false =>
      have hexec : exec ⟨none, false⟩ (.inl (.insertRequest w e)) s =
          ((s.trips.insertRequest e s.trips.clock).1,
            { s with trips := s.trips.setTables (s.trips.insertRequest e s.trips.clock).2 }) := rfl
      rw [hexec, Tables.insertRequest]
      split
      · exact .inl rfl
      · exact .inr ⟨_, rfl, rfl⟩

/-- The other commands leave the requests alone. -/
theorem requests_exec (fails : Bool) {c : TripCmd} (s : Store) (hinsert : ∀ w e, c ≠ .insertRequest w e)
    (hsave : ∀ w read e, c ≠ .saveRequest w read e) :
    (exec ⟨none, fails⟩ (.inl c) s).2.trips.requests = s.trips.requests := by
  have htrip : (TripStore.exec c s.trips).2.requests = s.trips.requests := by
    cases c with
    | insertRequest w e => exact absurd rfl (hinsert w e)
    | saveRequest w read e => exact absurd rfl (hsave w read e)
    | changeStatus trip id status now =>
        show (s.trips.setTables (s.trips.changeStatus id status now).2).requests = _
        unfold Tables.changeStatus
        split
        · rfl
        · split <;> rfl
    | insertListing e =>
        show (s.trips.setTables (s.trips.insertListing e).2).requests = _
        unfold Tables.insertListing
        dsimp only
        split <;> rfl
    | saveFare isNew row =>
        show (s.trips.setTables (s.trips.saveFare isNew row).2).requests = _
        unfold Tables.saveFare
        split <;> rfl
    | _ => rfl
  unfold exec
  dsimp only
  split
  · rfl
  · exact htrip

/-- **A save turns its row pending, or finds it so.** -/
theorem turnedPending_trip {q : Purse} (fails : Bool) (c : TripCmd) (pid : ℕ)
    (hallowed : purseAllowed u q (.inl c)) :
    turnedPending u s (exec ⟨none, fails⟩ (.inl c) s).2 +
        (if savesPending s (.act pid (.inl c) (exec ⟨none, fails⟩ (.inl c) s).1) then 1 else 0) =
      savedOf (.act pid (.inl c) (exec ⟨none, fails⟩ (.inl c) s).1) := by
  cases c with
  | saveRequest w read e =>
      rcases exec_saveRequest fails w read e s with hexec | ⟨s', hput, hexec⟩
      · rw [hexec, turnedPending_same rfl]
        cases w <;> rfl
      · rw [hexec, turnedPending_put hput]
        cases w with
        | request =>
            obtain ⟨_, hstatus, hdriver⟩ := hallowed
            rw [turned_of_pending (r := e.stamped _ _) hdriver hstatus]
            show (if isPending s e.id = true then 0 else 1) + (if isPending s e.id = true then 1 else 0) = 1
            split <;> rfl
        | _ =>
            rw [turned_of_status (r := e.stamped _ _) hallowed]
            rfl
  | insertRequest w e =>
      rcases exec_insertRequest fails w e s with hexec | ⟨s', hput, hexec⟩
      · rw [hexec, turnedPending_same rfl]
        rfl
      · obtain ⟨_, hstatus, hdriver⟩ := hallowed
        have hfresh : isPending s (e.inserted s.trips.requests.fresh s.trips.clock).id = false := by
          show (s.trips.requests.get s.trips.requests.fresh).any _ = false
          rw [Table.get_fresh]
          rfl
        have hturned : turned u s (e.inserted s.trips.requests.fresh s.trips.clock) =
            if isPending s (e.inserted s.trips.requests.fresh s.trips.clock).id then 0 else 1 :=
          turned_of_pending hdriver hstatus
        rw [hexec, turnedPending_put hput, hturned, hfresh]
        rfl
  | _ =>
      rw [turnedPending_same (requests_exec fails s (fun _ _ h => by cases h)
        (fun _ _ _ h => by cases h))]
      rfl

/-- No statement changes what is sold or who is a broker. -/
theorem accessExec_setting (w : World) (c : AccessCmd) (s : AccessStore) :
    (accessExec w c s).2.policy = s.policy ∧ (accessExec w c s).2.brokers = s.brokers := by
  cases c with
  | takeCredit userId =>
      show (s.takeCredit userId).2.policy = _ ∧ (s.takeCredit userId).2.brokers = _
      unfold AccessStore.takeCredit
      split <;> exact ⟨rfl, rfl⟩
  | saveOrder o =>
      show (if w.fails = true then (none, s) else s.saveOrder o).2.policy = _ ∧
        (if w.fails = true then (none, s) else s.saveOrder o).2.brokers = _
      split <;> exact ⟨rfl, rfl⟩
  | commitApproval a =>
      show (if w.fails = true then (false, s) else (true, s.approved a)).2.policy = _ ∧
        (if w.fails = true then (false, s) else (true, s.approved a)).2.brokers = _
      split
      · exact ⟨rfl, rfl⟩
      · show (((s.creditApproval a).pickApproval a).markApproved a).policy = _ ∧
          (((s.creditApproval a).pickApproval a).markApproved a).brokers = _
        unfold AccessStore.markApproved AccessStore.pickApproval AccessStore.creditApproval
        constructor
        · repeat' split
          all_goals rfl
        · repeat' split
          all_goals rfl
  | rejectSubmitted id adminUserId reason now =>
      show (s.rejectSubmitted id adminUserId reason now).2.policy = _ ∧
        (s.rejectSubmitted id adminUserId reason now).2.brokers = _
      unfold AccessStore.rejectSubmitted
      split
      · split <;> exact ⟨rfl, rfl⟩
      · exact ⟨rfl, rfl⟩
  | commitSelection userId ids now =>
      show (s.commitSelection userId ids now).policy = _ ∧
        (s.commitSelection userId ids now).brokers = _
      unfold AccessStore.commitSelection
      split <;> exact ⟨rfl, rfl⟩
  | _ => exact ⟨rfl, rfl⟩

end OneStatement

/-! ### Every run -/

section Run

variable {fares : Bool} {u : ℕ} {s₀ : Store} {tr : List (Event Resp)}
  {b c : Conf Resp ServiceError (Store × ℤ)} {e : Event Resp}

/-- Any run of the broker's taps. -/
abbrev SpendRun (fares : Bool) (u : ℕ) (s₀ : Store) :
    List (Event Resp) → Conf Resp ServiceError (Store × ℤ) → Prop :=
  (spendMachine fares u).Run (fun _ _ _ => True) (.start (s₀, 0))

/-- Requests are sold, and the user is a broker. -/
def Sold (u : ℕ) (s : Store) : Prop := s.access.policy.packagesEnabled = true ∧ u ∈ s.access.brokers

/-- What a step can do. -/
theorem spendStep_cases {l : (spendMachine fares u).Label}
    (hs : (spendMachine fares u).step b l = some (e, c)) :
    (∃ passed, e = .outside ∧ c.pool = b.pool ∧
        c.store.1 = { b.store.1 with
          trips := { b.store.1.trips with clock := b.store.1.trips.clock + passed } } ∧
        c.store.2 = b.store.2 + turnedPending u b.store.1 c.store.1) ∨
      (∃ call, e = .start b.pool.length ∧ c.pool = b.pool ++ [spendProgram fares u call] ∧
        c.store.1 = b.store.1 ∧ c.store.2 = b.store.2 + turnedPending u b.store.1 c.store.1) ∨
      ∃ pid fails cmd k, b.pool[pid]? = some (.call cmd k) ∧
        e = .act pid cmd (exec ⟨none, fails⟩ cmd b.store.1).1 ∧
        c.store.1 = (exec ⟨none, fails⟩ cmd b.store.1).2 ∧
        c.store.2 = b.store.2 + turnedPending u b.store.1 c.store.1 := by
  cases l with
  | outside passed =>
      obtain ⟨s, hout, he, rfl⟩ := Machine.step_outside hs
      obtain rfl := Option.some.inj hout
      exact .inl ⟨passed, he, rfl, rfl, rfl⟩
  | start call =>
      obtain ⟨p, s, hbegin, he, rfl⟩ := Machine.step_start hs
      obtain ⟨rfl, rfl⟩ := Prod.mk.inj (Option.some.inj hbegin)
      exact .inr (.inl ⟨call, he, rfl, rfl, rfl⟩)
  | act pid fails =>
      obtain ⟨cmd, k, r, s, hpool, hexec, rfl, rfl⟩ := Machine.step_act hs
      rw [show (spendMachine fares u).exec fails cmd b.store =
        (if waits cmd b.store.1 then none else some (exec ⟨none, fails⟩ cmd b.store.1)).map
          fun rs => (rs.1, (rs.2, b.store.2 + turnedPending u b.store.1 rs.2)) from rfl] at hexec
      split at hexec
      · cases hexec
      · obtain ⟨rfl, rfl⟩ := Prod.mk.inj (Option.some.inj hexec)
        exact .inr (.inr ⟨pid, fails, cmd, k, hpool, rfl, rfl, rfl⟩)

theorem sold_exec (w : World) (cmd : BrokerCmd) {s : Store} (h : Sold u s) :
    Sold u (exec w cmd s).2 := by
  cases cmd with
  | inl c =>
      rw [Sold, BrokerCredit.exec_inl_access]
      exact h
  | inr c =>
      obtain ⟨hpolicy, hbrokers⟩ := accessExec_setting w c s.access
      show (accessExec w c s.access).2.policy.packagesEnabled = true ∧
        u ∈ (accessExec w c s.access).2.brokers
      rw [hpolicy, hbrokers]
      exact h

theorem sold_run (hsold : Sold u s₀) (h : SpendRun fares u s₀ tr b) :
    (spendMachine fares u).Run (fun _ b _ => True ∧ Sold u b.store.1) (.start (s₀, 0)) tr b ∧
      Sold u b.store.1 := by
  apply Machine.Run.and_invariant (fun b => Sold u b.store.1) hsold _ h
  intro tr b l e c hb hs _
  rcases spendStep_cases hs with ⟨_, _, _, hstore, _⟩ | ⟨_, _, _, hstore, _⟩ |
    ⟨_, fails, cmd, _, _, _, hstore, _⟩
  · rw [hstore]
    exact hb
  · rw [hstore]
    exact hb
  · rw [hstore]
    exact sold_exec ⟨none, fails⟩ cmd hb

/-- The statements answer as the purse expects. -/
theorem purseAnswers_exec {s : Store} (hsold : Sold u s) (fails : Bool) (q : Purse)
    (cmd : BrokerCmd) : purseAnswers u q cmd (exec ⟨none, fails⟩ cmd s).1 := by
  cases cmd with
  | inr c =>
      cases c with
      | isBroker userId =>
          rintro rfl
          exact decide_eq_true hsold.2
      | getPolicy => exact hsold.1
      | _ => trivial
  | inl c =>
      cases c with
      | findByListingAndDriver listingId driverUserId =>
          intro r hr
          have hfound := List.find?_some hr
          rw [Bool.and_eq_true] at hfound
          exact of_decide_eq_true hfound.2
      | _ => trivial

theorem machine_answers {fails : Bool} {s : Store × ℤ} {cmd : BrokerCmd} {r : Resp cmd}
    {s' : Store × ℤ} (hsold : Sold u s.1) (q : Purse)
    (hexec : (spendMachine fares u).exec fails cmd s = some (r, s')) : purseAnswers u q cmd r := by
  rw [show (spendMachine fares u).exec fails cmd s =
    (if waits cmd s.1 then none else some (exec ⟨none, fails⟩ cmd s.1)).map
      fun rs => (rs.1, (rs.2, s.2 + turnedPending u s.1 rs.2)) from rfl] at hexec
  split at hexec
  · cases hexec
  · obtain ⟨rfl, _⟩ := Prod.mk.inj (Option.some.inj hexec)
    exact purseAnswers_exec hsold fails q cmd

theorem machine_begin {call : SpendCall} {s s' : Store × ℤ} {p : Broker Unit}
    (hbegin : (spendMachine fares u).begin call s = some (p, s')) :
    Accepts (purseMonitor u) p .untouched (fun _ q' => q' ≠ .charged) := by
  obtain ⟨rfl, _⟩ := Prod.mk.inj (Option.some.inj hbegin)
  exact accepts_spendProgram fares call

/-- **What a statement of a run is allowed.** -/
theorem run_allowed {pid : ℕ} {cmd : BrokerCmd} {k : Resp cmd → Broker Unit} (hsold : Sold u s₀)
    (h : SpendRun fares u s₀ tr b) (hpool : b.pool[pid]? = some (.call cmd k)) :
    ∃ q, purseAllowed u q cmd := by
  obtain ⟨_, hin⟩ := Run.accepted (μ := purseMonitor u) (F := (· ≠ .charged))
    (fun _ _ _ _ hbegin => machine_begin hbegin)
    (fun _ _ _ _ _ _ _ q hexec hok => machine_answers hok.2 q hexec) (sold_run hsold h).1
  exact ⟨_, (hin pid _ hpool).1⟩

/-! ### Charges and saves -/

/-- What a statement moves a tap's debt by. -/
def debtOf (u : ℕ) (c : BrokerCmd) (r : Resp c) : ℤ :=
  useOf u (.act 0 c r) - refundOf u (.act 0 c r) - savedOf (.act 0 c r)

/-- One save or refund is owed for a charge. -/
def debt (q : Purse) : ℤ := if q = .charged then 1 else 0

theorem debt_next {q : Purse} (c : BrokerCmd) (r : Resp c) (hallowed : purseAllowed u q c) :
    debt (purseNext q c r) = debt q + debtOf u c r := by
  cases c with
  | inr c =>
      cases c with
      | takeCredit userId =>
          obtain ⟨rfl, rfl⟩ := hallowed
          cases r <;> simp [purseNext, debt, debtOf, useOf, refundOf, savedOf]
      | refundCredit userId =>
          obtain ⟨rfl, rfl⟩ := hallowed
          simp [purseNext, debt, debtOf, useOf, refundOf, savedOf]
      | _ => exact (add_zero _).symm
  | inl c =>
      cases c with
      | insertRequest w e =>
          obtain ⟨rfl, _⟩ := hallowed
          cases r <;> simp [purseNext, debt, debtOf, useOf, refundOf, savedOf]
      | saveRequest w read e =>
          cases w with
          | request =>
              obtain ⟨rfl, _⟩ := hallowed
              cases r <;> simp [purseNext, debt, debtOf, useOf, refundOf, savedOf]
          | _ => exact (add_zero _).symm
      | _ => exact (add_zero _).symm

theorem tally_debtOf (u : ℕ) (tr : List (Event Resp)) :
    Tally (chargeOf (debtOf u)) tr = consumed u tr - Tally savedOf tr := by
  induction tr with
  | nil => rfl
  | cons e tr ih =>
      have hevent : chargeOf (debtOf u) e = useOf u e - refundOf u e - savedOf e := by
        cases e with
        | act pid c r =>
            cases c with
            | inr c => cases c <;> rfl
            | inl c =>
                cases c with
                | saveRequest w read e => cases w <;> rfl
                | _ => rfl
        | _ => rfl
      rw [consumed] at *
      simp only [tally_cons, ih, hevent]
      ring

/-- **With no tap in progress every credit consumed saved one request.** -/
theorem consumed_eq_saved (hsold : Sold u s₀) (h : SpendRun fares u s₀ tr b) (hquiet : b.Quiet) :
    consumed u tr = Tally savedOf tr := by
  have hzero : Tally (chargeOf (debtOf u)) tr = 0 :=
    Run.settled (μ := purseMonitor u) (F := (· ≠ .charged)) debt (debtOf u)
      (fun _ _ _ _ hbegin => machine_begin hbegin)
      (fun _ _ _ _ _ _ _ q hexec hok => machine_answers hok.2 q hexec)
      (fun _ c r hallowed _ => debt_next c r hallowed) rfl (fun _ hq => if_neg hq)
      (sold_run hsold h).1 hquiet
  rw [tally_debtOf] at hzero
  omega

/-! ### Saves and turns -/

/-- **A step saves a request and turns its row pending**, unless it finds it so. -/
theorem saved_step {l : (spendMachine fares u).Label} (hsold : Sold u s₀)
    (h : SpendRun fares u s₀ tr b) (hs : (spendMachine fares u).step b l = some (e, c)) :
    Tally savedOf (e :: tr) - c.store.2 =
      Tally savedOf tr - b.store.2 + if savesPending b.store.1 e then 1 else 0 := by
  rw [tally_cons]
  rcases spendStep_cases hs with ⟨_, rfl, _, hstore, hcount⟩ | ⟨_, rfl, _, hstore, hcount⟩ |
    ⟨pid, fails, cmd, k, hpool, rfl, hstore, hcount⟩
  · rw [hcount, turnedPending_same (by rw [hstore])]
    show 0 + _ - _ = _ + 0
    ring
  · rw [hcount, turnedPending_same (by rw [hstore])]
    show 0 + _ - _ = _ + 0
    ring
  · obtain ⟨q, hallowed⟩ := run_allowed hsold h hpool
    rw [hcount, hstore]
    cases cmd with
    | inl c =>
        have hturned := turnedPending_trip (s := b.store.1) fails c pid hallowed
        omega
    | inr c =>
        rw [show turnedPending u b.store.1 (exec ⟨none, fails⟩ (.inr c) b.store.1).2 = 0
          from turnedPending_same rfl]
        show 0 + _ - _ = _ + 0
        ring

/-- The saves that turned no row only become more. -/
theorem saved_later {x y : List (Event Resp) × Conf Resp ServiceError (Store × ℤ)} (hsold : Sold u s₀)
    (h : SpendRun fares u s₀ x.1 x.2)
    (hxy : (spendMachine fares u).Later (fun _ _ _ => True) x y) :
    Tally savedOf x.1 - x.2.store.2 ≤ Tally savedOf y.1 - y.2.store.2 := by
  induction hxy with
  | refl => exact le_refl _
  | @tail y z hxy hnext ih =>
      obtain ⟨l, e, hs, _, htr⟩ := hnext
      rw [htr]
      have hstep := saved_step hsold (h.later hxy) hs
      split at hstep <;> omega

theorem saved_nonneg (hsold : Sold u s₀) (h : SpendRun fares u s₀ tr b) :
    0 ≤ Tally savedOf tr - b.store.2 := by
  refine Machine.Run.invariant (fun tr b => 0 ≤ Tally savedOf tr - b.store.2) (le_refl _) ?_ h
  intro tr b l e c hrun ih hs _
  have hstep := saved_step hsold hrun hs
  split at hstep <;> omega

/-- When no save found its row pending, every save turned one. -/
theorem saved_eq_turned (hsold : Sold u s₀) (h : SpendRun fares u s₀ tr b)
    (hnone : ∀ x e, (spendMachine fares u).Took (fun _ _ _ => True) (.start (s₀, 0)) x e (tr, b) →
      savesPending x.2.store.1 e = false) :
    Tally savedOf tr - b.store.2 = 0 := by
  induction h with
  | nil => rfl
  | @snoc tr b c l e hrun hs hok ih =>
      rw [saved_step hsold hrun hs, hnone (tr, b) e (hrun.took hs hok), ih]
      · rfl
      · intro x e' htook
        exact hnone x e' (htook.next hs hok)

/-- **A broker pays once per request it has exactly when no save finds its row pending.** -/
theorem pays_once_iff (hsold : Sold u s₀) (h : SpendRun fares u s₀ tr b) (hquiet : b.Quiet) :
    consumed u tr = b.store.2 ↔
      ∀ x e, (spendMachine fares u).Took (fun _ _ _ => True) (.start (s₀, 0)) x e (tr, b) →
        savesPending x.2.store.1 e = false := by
  have hsaved := consumed_eq_saved hsold h hquiet
  constructor
  · intro heq x e htook
    obtain ⟨hrun, l, c, hs, hok, hlater⟩ := htook
    have hbefore := saved_nonneg hsold hrun
    have hstep := saved_step hsold hrun hs
    have hafter := saved_later hsold (.snoc hrun hs hok) hlater
    by_contra hpending
    rw [if_pos (Bool.eq_true_of_not_eq_false hpending)] at hstep
    show False
    dsimp only at hafter
    omega
  · intro hnone
    have heq := saved_eq_turned hsold h hnone
    omega

end Run

/-! ### Two overlapping taps -/

/-- Nothing on load 1 yet; broker 5 has two requests left. -/
def twoLeft : Store :=
  { BrokerCredit.newBroker with
    access := { BrokerCredit.newBroker.access with credits := Table.empty.put ⟨5, 2⟩ } }

/-- The same, after the broker's request was withdrawn. -/
def withdrawnRow : Store :=
  { twoLeft with
    trips := { twoLeft.trips with
      requests := Table.empty.put (CargoRequest.create 1 5 10).withdrawn } }

/-- Two taps that both read the row before the first one saves it. -/
def twoTaps : List (spendMachine true 5).Label :=
  [[.start (.request BrokerCredit.brokerAnswers 1 none)],
    [.start (.request BrokerCredit.brokerAnswers 1 none)], List.replicate 2 (.act 0 false),
    List.replicate 10 (.act 1 false), List.replicate 7 (.act 0 false)].flatten

/-- Where they end, from a store and with what is left to run. -/
def tapped (s : Store) (rest : List (spendMachine true 5).Label) :
    Option (List (Event Resp) × Conf Resp ServiceError (Store × ℤ)) :=
  (spendMachine true 5).play (fun _ _ _ => True) [] (.start (s, 0)) (twoTaps ++ rest)

/-- On a new row the second save is refused and its charge refunded. -/
theorem pays_once_iff_newRow :
    ∃ tr b, tapped twoLeft [] = some (tr, b) ∧ consumed 5 tr = b.store.2 ∧ b.store.2 = 1 ∧
      ∀ x e, (spendMachine true 5).Took (fun _ _ _ => True) (.start (twoLeft, 0)) x e (tr, b) →
        savesPending x.2.store.1 e = false := by
  have hend : ((tapped twoLeft []).map fun y =>
      (consumed 5 y.1, y.2.store.2, decide y.2.Quiet)) = some (1, 1, true) := by decide
  obtain ⟨⟨tr, b⟩, hplay, hvalues⟩ := Option.map_eq_some_iff.mp hend
  obtain ⟨hconsumed, hvalues'⟩ := Prod.mk.inj hvalues
  obtain ⟨hturned, hquiet⟩ := Prod.mk.inj hvalues'
  have hrun : SpendRun true 5 twoLeft tr b := Machine.play_run .nil hplay
  have heq : consumed 5 tr = b.store.2 := hconsumed.trans hturned.symm
  have hiff := pays_once_iff ⟨rfl, List.mem_singleton.mpr rfl⟩ hrun (of_decide_eq_true hquiet)
  exact ⟨tr, b, hplay, heq, hturned, hiff.mp heq⟩

/-- **A withdrawn row is paid for twice**: both taps are charged, and the row turns pending once. -/
theorem not_pays_once :
    ¬∀ (fares : Bool) (u : ℕ) (s₀ : Store) (tr : List (Event Resp))
      (b : Conf Resp ServiceError (Store × ℤ)), Sold u s₀ → SpendRun fares u s₀ tr b → b.Quiet →
        consumed u tr = b.store.2 := by
  intro h
  have hend : ((tapped withdrawnRow [.act 0 false]).map fun y =>
      (consumed 5 y.1, y.2.store.2, decide y.2.Quiet)) = some (2, 1, true) := by decide
  obtain ⟨⟨tr, b⟩, hplay, hvalues⟩ := Option.map_eq_some_iff.mp hend
  obtain ⟨hconsumed, hvalues'⟩ := Prod.mk.inj hvalues
  obtain ⟨hturned, hquiet⟩ := Prod.mk.inj hvalues'
  have heq := h true 5 withdrawnRow tr b ⟨rfl, List.mem_singleton.mpr rfl⟩ (Machine.play_run .nil hplay)
    (of_decide_eq_true hquiet)
  dsimp only at hconsumed hturned
  omega

end TransportBackend.BrokerSpending
