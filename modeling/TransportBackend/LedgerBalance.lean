import TransportBackend.BrokerLedger
import TransportBackend.SequentialRun
import TransportBackend.TripFareHistory
import TransportBackend.TripPolicy

/-!
# The broker ledger adds up

The account of a broker is worked out anew on every call, from the delivered requests, their fares and
the payments.  A request delivered while fares are kept has its share written down, so the fallback of
the query on today's percent never comes into play for it.

* `account_earned`, `account_split` — what the columns of an account are, over its rows;
* `Shared` — what a delivery writes down, at the percent in force then;
* `percentAtDelivery` — that percent, read off the history;
* `ledger_adds_up` — **earned is the sum of the shares listed and of the percents at delivery, and no
  later change of the percent moves anything**.
-/

namespace TransportBackend.LedgerBalance

open TransportBackend.AtomicProgram
open TransportBackend.AtomicProgram.Prog
open TransportBackend.CommandSum
open TransportBackend.KeyedTable
open TransportBackend.NullLogic
open TransportBackend.SequentialRun
open TransportBackend.TripFareRules
open TransportBackend.TripStore (CargoRequest CargoRequestStatus Tables TripCmd)
open TransportBackend.TripService (Services settled)
open TransportBackend.TripRun (TripOp atTime)
open TransportBackend.TripEffect
open TransportBackend.TripMoves
open TransportBackend.TripInvariant
open TransportBackend.TripFareHistory
open TransportBackend.TripPolicy
open TransportBackend.BrokerLedger

/-! ### The columns of an account -/

section Columns

variable {s : Store} {companyUserId percent : ℕ}

theorem mem_accountsOf {a : BrokerAccount} (h : a ∈ accountsOf s companyUserId percent) :
    ∃ b, a = accountOfUser s companyUserId percent b := by
  rw [accountsOf, List.mem_insertionSort, List.mem_map] at h
  obtain ⟨b, _, rfl⟩ := h
  exact ⟨b, rfl⟩

/-- A column of a group that is empty is zero, as its aggregate over no rows is. -/
theorem group_column {α : Type} (f : TripGroup → α) (zero : α) (rows : List LedgerRow) (value : α)
    (hvalue : ∀ g ∈ tripGroup percent rows, f g = value) (hempty : rows = [] → value = zero) :
    ((tripGroup percent rows).map f).getD zero = value := by
  unfold tripGroup at *
  split
  · rename_i hrows
    exact (hempty hrows).symm
  · rename_i hrows
    apply hvalue
    rw [if_neg hrows]
    rfl

/-- **What is earned** is the sum of the commissions. -/
theorem account_earned (s : Store) (companyUserId percent : ℕ) (b : User) :
    (accountOfUser s companyUserId percent b).earned =
      ((brokerRows s.trips.toTables companyUserId b.id).map
        fun x => (commission percent x).getD 0).sum := by
  apply group_column
  · intro g hg
    unfold tripGroup at hg
    split at hg
    · cases hg
    · rw [← Option.some.inj hg]
      show (sumOf ((brokerRows s.trips.toTables companyUserId b.id).map (commission percent))).getD 0
        = _
      rw [sumOf_getD, List.map_map]
      rfl
  · intro hrows
    rw [hrows]
    rfl

theorem account_unpriced (s : Store) (companyUserId percent : ℕ) (b : User) :
    (accountOfUser s companyUserId percent b).unpriced =
      countWhere (fun x => and3 (onCommission x) (some (commission percent x).isNone))
        (brokerRows s.trips.toTables companyUserId b.id) := by
  apply group_column
  · intro g hg
    unfold tripGroup at hg
    split at hg
    · cases hg
    · rw [← Option.some.inj hg]
  · intro hrows
    rw [hrows]
    rfl

/-- **Every trip is on commission or on margin.** -/
theorem account_split (s : Store) (companyUserId percent : ℕ) (b : User) :
    (accountOfUser s companyUserId percent b).commissionTrips +
        (accountOfUser s companyUserId percent b).marginTrips =
      (accountOfUser s companyUserId percent b).trips := by
  show ((tripGroup percent (brokerRows s.trips.toTables companyUserId b.id)).map
      TripGroup.commissionTrips).getD 0 +
    ((tripGroup percent (brokerRows s.trips.toTables companyUserId b.id)).map
      TripGroup.marginTrips).getD 0 =
    ((tripGroup percent (brokerRows s.trips.toTables companyUserId b.id)).map TripGroup.trips).getD 0
  unfold tripGroup
  split
  · rfl
  · apply countWhere_split
    intro x _
    exact Option.some_ne_none _

theorem account_remaining (s : Store) (companyUserId percent : ℕ) (b : User) :
    (accountOfUser s companyUserId percent b).remaining =
      (accountOfUser s companyUserId percent b).earned -
        (accountOfUser s companyUserId percent b).paid := rfl

/-- An account depends on today's percent through the commissions only. -/
theorem account_congr {percent' : ℕ} {b : User}
    (h : ∀ x ∈ brokerRows s.trips.toTables companyUserId b.id,
      commission percent x = commission percent' x) :
    accountOfUser s companyUserId percent b = accountOfUser s companyUserId percent' b := by
  have hgroup : tripGroup percent (brokerRows s.trips.toTables companyUserId b.id) =
      tripGroup percent' (brokerRows s.trips.toTables companyUserId b.id) := by
    unfold tripGroup
    rw [List.map_congr_left h]
    congr 3
    apply countWhere_congr
    intro x hx
    rw [h x hx]
  rw [accountOfUser, accountOfUser, hgroup]

/-- The commissions `detail` lists add up to those of its rows whose load is there. -/
theorem sum_tripLines (s : Store) (companyUserId brokerUserId percent : ℕ)
    (h : ∀ x ∈ brokerRows s.trips.toTables companyUserId brokerUserId,
      (s.trips.listings.get x.1.listingId).isSome = true) :
    ((tripLines s companyUserId brokerUserId percent).map fun l => l.commission.getD 0).sum =
      ((brokerRows s.trips.toTables companyUserId brokerUserId).map
        fun x => (commission percent x).getD 0).sum := by
  rw [tripLines, ((List.perm_insertionSort _ _).map _).sum_eq, List.filter_eq_self.mpr h,
    List.map_map]
  rfl

theorem mem_brokerRows {T : Tables} {brokerUserId : ℕ} {x : LedgerRow}
    (h : x ∈ brokerRows T companyUserId brokerUserId) :
    x.1 ∈ T.requests.rows ∧ x.1.forDriver.isSome = true ∧ x.1.status = .delivered ∧
      x.2 = T.fares.get (x.1.id, .delivered) := by
  obtain ⟨hrow, _⟩ := List.mem_filter.mp h
  obtain ⟨r, hr, rfl⟩ := List.mem_map.mp hrow
  obtain ⟨hmem, hledger⟩ := List.mem_filter.mp hr
  simp only [ofLedger, Bool.and_eq_true, decide_eq_true_eq] at hledger
  exact ⟨hmem, hledger.1.2, hledger.2, rfl⟩

end Columns

/-! ### What a delivery writes down -/

/-- The share of a trip in this way of payment, by the fare confirmed for it. -/
def shareOf (percent : ℕ) (model : BrokerPayModel) (d : TripFare) : Option ℤ :=
  if model = .commission ∧ d.currency = .toman then
    some (commissionOf d.total (percentNumber percent))
  else none

/-- The request has its way of payment, its delivered fare and the share of that fare. -/
structure Shared (percent : ℕ) (T : Tables) (r : CargoRequest) : Prop where
  written : ∃ model d, r.brokerPayModel = some model ∧ T.fares.get (r.id, .delivered) = some d ∧
    r.brokerCommission = shareOf percent model d

section Delivery

variable {s : TripStore.Store} {percent : ℕ}

/-- A row after a save is the one saved, or was there before. -/
theorem has_saved {T : Tables} {t : ℕ} {e r : CargoRequest} (h : Has (saved T t e) r) :
    r = e.stamped (T.requests.get e.id) t ∨ Has T r := by
  by_cases hid : r.id = e.id
  · left
    have hget : (saved T t e).requests.get r.id = some (e.stamped (T.requests.get e.id) t) := by
      rw [hid]
      exact Table.get_put_self _ (e.stamped (T.requests.get e.id) t)
    exact Option.some.inj (h.symm.trans hget)
  · right
    have hget : (saved T t e).requests.get r.id = T.requests.get r.id :=
      Table.get_put_of_ne (a := e.stamped (T.requests.get e.id) t) hid
    exact hget.symm.trans h

theorem total_num {kept : Bool} {input : Option TripFareInput} {v : TripFareValues}
    (h : FareRead kept input (some v)) : ((v.total.num : ℤ) : ℚ) = v.total := by
  cases h with
  | read _ hread =>
      obtain ⟨n, hn, _⟩ := (readTripFare_valid hread).total
      rw [hn, Rat.num_intCast]

/-- The share `settleBroker` works out is the one of the fare that is recorded. -/
theorem shared_settled {T : Tables} {input : Option TripFareInput} {v v' : TripFareValues}
    {r e : CargoRequest} {user : ℕ}
    (hfare : T.fares.get (r.id, .delivered) = some (TripFare.store r.id .delivered v' user))
    (hread : FareRead true input (some v)) (htotal : v'.total = v.total)
    (hcurrency : v'.currency = v.currency) (he : e.id = r.id)
    (hmodel : e.brokerPayModel = (settled r (some v) percent).brokerPayModel)
    (hcommission : e.brokerCommission = (settled r (some v) percent).brokerCommission) :
    Shared percent T e := by
  refine ⟨r.brokerPayModel.getD .commission, _, hmodel, (by rw [he]; exact hfare), ?_⟩
  have hnum : ((TripFare.store r.id .delivered v' user).total : ℚ) = v.total := by
    show ((v'.total.num : ℤ) : ℚ) = v.total
    rw [htotal]
    exact total_num hread
  rw [hcommission, shareOf, hnum]
  show (brokerEarning (r.brokerPayModel.getD .commission) v.total v.currency _
    (percentNumber percent)).commission = _
  rw [show (TripFare.store r.id .delivered v' user).currency = v'.currency from rfl, hcurrency]
  cases r.brokerPayModel.getD .commission <;> simp [brokerEarning]

/-- A delivered broker row was there before, or has its share written down. -/
def Fixes (percent : ℕ) (s s' : TripStore.Store) : Prop :=
  ∀ r, Has s'.toTables r → r.status = .delivered → r.forDriver.isSome = true →
    Has s.toTables r ∨ Shared percent s'.toTables r

theorem Fixes.refl (percent : ℕ) (s : TripStore.Store) : Fixes percent s s :=
  fun _ hr _ _ => .inl hr

/-- **A delivery writes the share at the percent in force.** -/
theorem deliver_fixes (hs : Sound s.toTables s.clock) (hforce : InForce percent s) (broker : Bool)
    (user requestId : ℕ) (fareInput : Option TripFareInput) :
    (TripService.deliver ⟨true, true⟩ broker user requestId fareInput).After TripStore.exec s
      (fun _ s' => Fixes percent s s') (fun s' => Fixes percent s s') := by
  simp only [TripService.deliver, after_bind, after_refuseIf]
  refine after_owned (Fixes.refl _ _) fun r l hr hid hl hallowed => ?_
  subst hid
  refine ⟨fun _ => Fixes.refl _ _, fun haccepted => ?_⟩
  have haccepted' : r.status = .accepted := not_not.mp haccepted
  have htrip : r.onTrip = true := by simp [CargoRequest.onTrip, haccepted']
  by_cases hdriver : user = r.driverUserId
  · rw [if_pos hdriver, TripService.reportDelivery]
    split
    · exact Fixes.refl _ _
    · simp only [after_bind, after_dateNow, after_notify, after_pure]
      refine after_saveRequest (hs.free_of_trip hr rfl rfl htrip) ?_
      intro r' hr' hdel _
      rcases has_saved hr' with rfl | hold
      · exact absurd (haccepted'.symm.trans hdel) (by decide)
      · exact .inl hold
  · rw [if_neg hdriver]
    simp only [TripService.confirmDelivery, after_bind, after_dateNow, after_notify, after_pure]
    refine after_fareIf (Fixes.refl _ _) fun fare hfare => ?_
    cases hfare with
    | skipped hno => cases hno
    | @read v hkept hread =>
        refine after_recordDeliveredIfGiven (Fixes.refl _ _) fun _ => ?_
        have hrecorded := recorded_get_self s.fares r.id .delivered
          (TripService.deliveredValues (s.fares.get (r.id, .agreed)) v) user
        cases hbroker : r.forDriver.isSome with
        | false =>
            -- a driver's own trip is none of the ledger's
            refine after_saveRequest (hs.free_of_trip hr rfl rfl htrip) ?_
            intro r' hr' _ hfor
            rcases has_saved hr' with rfl | hold
            · exact absurd (hbroker.symm.trans hfor) Bool.false_ne_true
            · exact .inl hold
        | true =>
            simp only [Bool.and_true, TripService.settleIf, if_true, TripService.settleBroker,
              after_bind, after_pure]
            have hforce' : InForce percent (s.setTables (withFares s.toTables (recorded s.fares r.id
                .delivered (some (TripService.deliveredValues (s.fares.get (r.id, .agreed)) v))
                user))) := ⟨hforce.setting, hforce.copy⟩
            refine after_getPolicy_inForce hforce' ?_
            intro s' hT hclock _
            refine after_saveRequest ?_ ?_
            · rw [hT]
              exact hs.free_of_trip hr rfl rfl htrip
            · intro r' hr' _ _
              rw [storeNoted_toTables, storeSaved_toTables] at hr'
              rcases has_saved hr' with rfl | hold
              · right
                have hfare : (saved s'.toTables s'.clock (settled (r.confirmed s.clock) (some v)
                    percent)).fares.get (r.id, .delivered) = some (TripFare.store r.id .delivered
                      (TripService.deliveredValues (s.fares.get (r.id, .agreed)) v) user) := by
                  rw [saved_fares, hT]
                  exact hrecorded
                exact shared_settled hfare (.read rfl hread) rfl rfl rfl rfl rfl
              · left
                rw [hT] at hold
                exact hold

/-- **Only a delivery delivers.** -/
theorem fixes_of_move {cfg : Services} {t : ℕ} {op : TripOp} {s s' : TripStore.Store}
    (h : Move cfg t op s.toTables s'.toTables)
    (hop : ∀ broker user id fareInput, op ≠ .deliver broker user id fareInput) :
    Fixes percent s s' := by
  intro r' hr' hdel _
  left
  rcases Move.origin h hr' with ⟨r, hr, _, hstep⟩ | hnew
  · cases hstep with
    | same => exact hr
    | delivered hs hsettle => exact absurd rfl (hop _ _ _ _)
    | reported hs => exact absurd rfl (hop _ _ _ _)
    | accepted hstart => cases hdel
    | offerAccepted hstart => cases hdel
    | rejected hs => cases hdel
    | declined hs => cases hdel
    | reminded hs hdue => exact absurd (hs.symm.trans hdel) (by decide)
    | unreported hs => exact absurd (hs.symm.trans hdel) (by decide)
    | _ => cases hdel
  · cases hnew <;> cases hdel

end Delivery

/-! ### Operations one after another -/

/-- The trip operations, the admin's changes of the percent, payments and payments taken back. -/
inductive LedgerOp where
  | trip (op : TripOp)
  | setPolicy (commissionPercent : ℕ)
  | settle (companyUserId brokerUserId : ℕ) (amount : String) (note : Option String) (byUserId : ℕ)
  | removeSettlement (companyUserId settlementId : ℕ)

/-- A method whose result nobody waits for. -/
def unanswered {α : Type} (p : Ledger α) : Ledger Unit := do
  let _ ← p
  pure ()

/-- What an operation runs: fares are kept, and brokers have their accounts. -/
def ledgerProgram : LedgerOp → Ledger Unit
  | .trip op => BrokerLedger.trip (TripRun.programOf ⟨true, true⟩ op)
  | .setPolicy percent => unanswered (BrokerLedger.trip (TripService.setPolicy percent))
  | .settle company broker amount note user => unanswered (settle company broker amount note user)
  | .removeSettlement company id => unanswered (removeSettlement company id)

/-- An operation run whole at time `t`. -/
def ledgerStep (t : ℕ) (op : LedgerOp) (s : Store) : Store :=
  ((ledgerProgram op).run exec { s with trips := atTime t s.trips }).2

/-- The request is delivered. -/
def isDelivered (s : Store) (id : ℕ) : Bool :=
  (s.trips.requests.get id).any fun r => r.status = .delivered

/-- The percent in force when the request was delivered. -/
def percentAtDelivery : List (Moment LedgerOp Store) → ℕ → Option ℕ
  | [], _ => none
  | m :: past, id =>
      if isDelivered m.after id && !isDelivered m.before id then
        some m.before.trips.commissionPercent
      else percentAtDelivery past id

/-- What a history keeps. -/
structure LedgerKept (t₀ : ℕ) (past : List (Moment LedgerOp Store)) (s : Store) : Prop where
  sound : Sound s.trips.toTables s.trips.clock
  clock : s.trips.clock ≤ lastTime t₀ past
  inForce : InForce s.trips.commissionPercent s.trips
  shared : ∀ r, Has s.trips.toTables r → r.status = .delivered → r.forDriver.isSome = true →
    ∃ percent, percentAtDelivery past r.id = some percent ∧ Shared percent s.trips.toTables r

section Steps

/-- A part of the trip service runs on its own tables. -/
theorem run_trip {α : Type} (p : TripStore.Trip α) (s : Store) :
    (BrokerLedger.trip p).run exec s =
      ((p.run TripStore.exec s.trips).1, { s with trips := (p.run TripStore.exec s.trips).2 }) := by
  induction p generalizing s with
  | ret a => rfl
  | throw e => rfl
  | call c k ih => exact ih (TripStore.exec c s.trips).1 _

variable {t₀ t percent : ℕ} {s s' : Store} {past : List (Moment LedgerOp Store)}

theorem after_trip {α : Type} {p : TripStore.Trip α} {Q : α → Store → Prop} {E : Store → Prop} :
    (BrokerLedger.trip p).After exec s Q E ↔
      p.After TripStore.exec s.trips (fun a x => Q a { s with trips := x })
        (fun x => E { s with trips := x }) := by
  unfold After
  rw [run_trip]
  generalize p.run TripStore.exec s.trips = out
  obtain ⟨_ | _, _⟩ := out <;> rfl

/-- The ledger's own commands, and those that read the percent. -/
def LedgerOnly (percent : ℕ) : Cmd → Prop
  | .inl c => ReadsPolicy percent c
  | .inr _ => True

/-- What these are answered while the percent is in force. -/
def LedgerAnswer (percent : ℕ) : (c : Cmd) → Resp c → Prop
  | .inl c, r => SteadyAnswer percent c r
  | .inr _, _ => True

/-- They leave the trips and the time as they are. -/
theorem ledgerOnly_exec {T : Tables} (c : Cmd) (s : Store)
    (h : s.trips.toTables = T ∧ s.trips.clock = t ∧ InForce percent s.trips)
    (hc : LedgerOnly percent c) :
    ((exec c s).2.trips.toTables = T ∧ (exec c s).2.trips.clock = t ∧
      InForce percent (exec c s).2.trips) ∧ LedgerAnswer percent c (exec c s).1 := by
  obtain ⟨hT, hclock, hforce⟩ := h
  cases c with
  | inl c =>
      obtain ⟨hforce', hanswer⟩ :=
        inForce_exec c s.trips hforce (steady_of_readsPolicy c hc)
      refine ⟨⟨?_, (TripRun.exec_clock c s.trips).trans hclock, hforce'⟩, hanswer⟩
      cases c <;> first | exact hT | exact hc.elim
  | inr c => cases c <;> exact ⟨⟨hT, hclock, hforce⟩, trivial⟩

/-- Every command of the program is such a one. -/
def AllLedger {α : Type} (percent : ℕ) (p : Ledger α) : Prop :=
  p.Within (LedgerOnly percent) (LedgerAnswer percent) (fun _ => True)

theorem AllLedger.bind {α β : Type} {p : Ledger α} {f : α → Ledger β} (hp : AllLedger percent p)
    (hf : ∀ a, AllLedger percent (f a)) : AllLedger percent (p >>= f) :=
  (within_bind _ _).mpr (within_mono hp fun a _ => hf a)

theorem allLedger_issue (c : LedgerCmd) : AllLedger percent (issue c) := ⟨trivial, fun _ _ => trivial⟩

theorem allLedger_orThrow {α : Type} (e : TripStore.ServiceError) (o : Option α) :
    AllLedger percent (.orThrow e o) := by
  rw [AllLedger, within_orThrow]
  exact fun _ _ => trivial

theorem allLedger_refuseIf (p : Prop) [Decidable p] (e : TripStore.ServiceError) :
    AllLedger percent (.refuseIf p e) := by
  rw [AllLedger, within_refuseIf]
  exact fun _ => trivial

theorem allLedger_getPolicy : AllLedger percent (BrokerLedger.trip TripService.getPolicy) :=
  (within_onLeft _).mpr (within_mono within_getPolicy fun _ _ => trivial)

theorem allLedger_accountWith (company broker : ℕ) : AllLedger percent (accountWith company broker) := by
  refine AllLedger.bind ?_ fun all => allLedger_orThrow _ _
  exact allLedger_getPolicy.bind fun _ => (allLedger_issue _).bind fun _ => trivial

theorem allLedger_detail (company broker : ℕ) : AllLedger percent (detail company broker) := by
  refine allLedger_getPolicy.bind fun _ => (allLedger_accountWith company broker).bind fun _ => ?_
  exact (allLedger_issue _).bind fun _ => (allLedger_issue _).bind fun _ => trivial

theorem allLedger_settle (company broker : ℕ) (amount : String) (note : Option String) (user : ℕ) :
    AllLedger percent (settle company broker amount note user) := by
  refine (allLedger_refuseIf _ _).bind fun _ => (allLedger_accountWith company broker).bind fun _ => ?_
  refine (allLedger_refuseIf _ _).bind fun _ => (allLedger_issue _).bind fun _ => ?_
  exact allLedger_detail company broker

theorem allLedger_removeSettlement (company id : ℕ) :
    AllLedger percent (removeSettlement company id) := by
  refine (allLedger_issue _).bind fun found => (allLedger_orThrow _ _).bind fun settlement => ?_
  exact (allLedger_issue _).bind fun _ => allLedger_detail company _

theorem isDelivered_of_has {r : CargoRequest} (hr : Has s.trips.toTables r)
    (hdel : r.status = .delivered) : isDelivered s r.id = true := by
  rw [isDelivered, hr]
  exact decide_eq_true hdel

theorem has_of_isDelivered {id : ℕ} (h : isDelivered s id = true) :
    ∃ r, Has s.trips.toTables r ∧ r.id = id ∧ r.status = .delivered := by
  unfold isDelivered at h
  cases hget : s.trips.requests.get id with
  | none =>
      rw [hget] at h
      cases h
  | some r =>
      rw [hget] at h
      exact ⟨r, has_of_get hget, Table.key_of_get hget, of_decide_eq_true h⟩

theorem percentAtDelivery_skip {m : Moment LedgerOp Store} {id : ℕ}
    (h : isDelivered m.after id = true → isDelivered m.before id = true) :
    percentAtDelivery (m :: past) id = percentAtDelivery past id := by
  rw [percentAtDelivery]
  apply if_neg
  intro hboth
  rw [Bool.and_eq_true, Bool.not_eq_true'] at hboth
  rw [h hboth.1] at hboth
  exact Bool.true_eq_false_eq_False hboth.2

/-- A delivered fare stays, as long as its request was delivered before. -/
theorem fare_kept {op : TripOp} {T T' : Tables} {r : CargoRequest} (h : Move ⟨true, true⟩ t op T T')
    (hr : Has T r) (hdel : r.status = .delivered) :
    T'.fares.get (r.id, .delivered) = T.fares.get (r.id, .delivered) := by
  rcases Move.delivered_fare h r.id with hsame | ⟨k, _, _, _, hk, hid, hacc, _⟩
  · exact hsame
  · rw [hk.unique hr hid, hdel] at hacc
    cases hacc

/-- **A trip operation keeps the shares written down.** -/
theorem LedgerKept.trip (h : LedgerKept t₀ past s) (ht : lastTime t₀ past ≤ t) (op : TripOp) :
    LedgerKept t₀ (⟨t, .trip op, s, ledgerStep t (.trip op) s⟩ :: past) (ledgerStep t (.trip op) s) := by
  have hstep : ledgerStep t (.trip op) s =
      { s with trips := (TripRun.step ⟨true, true⟩ t op s.trips).2 } := by
    rw [ledgerStep, ledgerProgram, run_trip]
    rfl
  rw [hstep]
  have hsound : Sound s.trips.toTables t := h.sound.later (h.clock.trans ht)
  have hmove := move_step ⟨true, true⟩ hsound op
  have hforce := TripPolicy.step_inForce ⟨true, true⟩ t op h.inForce
  have hclock : (TripRun.step ⟨true, true⟩ t op s.trips).2.clock = t := TripRun.step_clock _ t op _
  have hfixes : Fixes s.trips.commissionPercent s.trips (TripRun.step ⟨true, true⟩ t op s.trips).2 := by
    by_cases hop : ∃ broker user id fareInput, op = .deliver broker user id fareInput
    · obtain ⟨broker, user, id, fareInput, rfl⟩ := hop
      have hforce' : InForce s.trips.commissionPercent (atTime t s.trips) :=
        ⟨h.inForce.setting, h.inForce.copy⟩
      have hafter : (TripRun.unanswered (TripService.deliver ⟨true, true⟩ broker user id
          fareInput)).After TripStore.exec (atTime t s.trips)
          (fun _ s' => Fixes s.trips.commissionPercent s.trips s')
          (fun s' => Fixes s.trips.commissionPercent s.trips s') :=
        after_unanswered.mpr (deliver_fixes hsound hforce' broker user id fareInput)
      exact hafter.store
    · exact fixes_of_move hmove fun broker user id fareInput heq =>
        hop ⟨broker, user, id, fareInput, heq⟩
  refine ⟨?_, hclock.le, ?_, ?_⟩
  · show Sound _ (TripRun.step ⟨true, true⟩ t op s.trips).2.clock
    rw [hclock]
    exact Move.sound hmove hsound
  · exact ⟨rfl, fun entry hentry => (hforce.copy entry hentry).trans hforce.setting.symm⟩
  · intro r hr hdel hfor
    cases hbefore : isDelivered s r.id with
    | true =>
        obtain ⟨k, hk, hid, hkdel⟩ := has_of_isDelivered hbefore
        obtain ⟨k', hk', hid', hrow⟩ := Move.row hmove hk
        obtain rfl := hrow.delivered_same hsound hk hkdel
        obtain rfl : k' = r := hk'.unique hr hid
        obtain ⟨percent, hpercent, model, d, hmodel, hd, hshare⟩ := h.shared k' hk hdel hfor
        refine ⟨percent, ?_, ⟨model, d, hmodel, ?_, hshare⟩⟩
        · rw [percentAtDelivery_skip fun _ => hbefore]
          exact hpercent
        · exact (fare_kept hmove hk hdel).trans hd
    | false =>
        rcases hfixes r hr hdel hfor with hold | hshared
        · exact absurd (isDelivered_of_has hold hdel) (Bool.eq_false_iff.mp hbefore)
        · refine ⟨s.trips.commissionPercent, ?_, hshared⟩
          rw [percentAtDelivery]
          apply if_pos
          rw [Bool.and_eq_true, Bool.not_eq_true']
          exact ⟨isDelivered_of_has hr hdel, hbefore⟩

/-- An operation that leaves the trips alone. -/
theorem LedgerKept.same (h : LedgerKept t₀ past s) (ht : lastTime t₀ past ≤ t) (op : LedgerOp)
    (htables : s'.trips.toTables = s.trips.toTables) (hclock : s'.trips.clock = t)
    (hforce : InForce percent s'.trips) : LedgerKept t₀ (⟨t, op, s, s'⟩ :: past) s' := by
  refine ⟨?_, hclock.le, ⟨rfl, ?_⟩, ?_⟩
  · rw [htables, hclock]
    exact h.sound.later (h.clock.trans ht)
  · intro entry hentry
    rw [hforce.setting]
    exact hforce.copy entry hentry
  · intro r hr hdel hfor
    rw [htables] at hr ⊢
    obtain ⟨percent, hpercent, hshared⟩ := h.shared r hr hdel hfor
    refine ⟨percent, ?_, hshared⟩
    rw [percentAtDelivery_skip fun _ => isDelivered_of_has hr hdel]
    exact hpercent

/-- A payment, or one taken back. -/
theorem LedgerKept.payment {α : Type} {p : Ledger α} {op : LedgerOp} (h : LedgerKept t₀ past s)
    (ht : lastTime t₀ past ≤ t) (hop : ledgerProgram op = unanswered p)
    (hp : AllLedger s.trips.commissionPercent p) :
    LedgerKept t₀ (⟨t, op, s, ledgerStep t op s⟩ :: past) (ledgerStep t op s) := by
  have hall : AllLedger s.trips.commissionPercent (unanswered p) := hp.bind fun _ => trivial
  have hafter := after_of_within (s := { s with trips := atTime t s.trips })
    (ledgerOnly_exec (T := s.trips.toTables) (t := t)) hall
    ⟨rfl, rfl, ⟨h.inForce.setting, h.inForce.copy⟩⟩
  obtain ⟨htables, hclock, hforce⟩ := After.store (P := fun s' =>
    s'.trips.toTables = s.trips.toTables ∧ s'.trips.clock = t ∧
      InForce s.trips.commissionPercent s'.trips) (after_mono hafter (fun _ _ h => h.2) fun _ h => h)
  rw [ledgerStep, hop]
  exact h.same ht op htables hclock hforce

/-- **Every operation keeps the shares written down.** -/
theorem LedgerKept.step (h : LedgerKept t₀ past s) (ht : lastTime t₀ past ≤ t) (op : LedgerOp) :
    LedgerKept t₀ (⟨t, op, s, ledgerStep t op s⟩ :: past) (ledgerStep t op s) := by
  cases op with
  | trip op => exact h.trip ht op
  | settle company broker amount note user =>
      exact h.payment ht rfl (allLedger_settle company broker amount note user)
  | removeSettlement company id => exact h.payment ht rfl (allLedger_removeSettlement company id)
  | setPolicy percent =>
      have hafter : (unanswered (BrokerLedger.trip (TripService.setPolicy percent))).After exec
          { s with trips := atTime t s.trips }
          (fun _ s' => s'.trips.toTables = s.trips.toTables ∧ s'.trips.clock = t ∧
            InForce percent s'.trips)
          (fun s' => s'.trips.toTables = s.trips.toTables ∧ s'.trips.clock = t ∧
            InForce percent s'.trips) := by
        rw [unanswered, after_bind, after_trip]
        exact after_mono (after_setPolicy (E := fun _ => False) _ percent) (fun _ _ hset => hset.2)
          fun _ hfalse => hfalse.elim
      obtain ⟨htables, hclock, hforce⟩ := hafter.store
      exact h.same ht _ htables hclock hforce

theorem ledger_kept {s₀ : Store} (h₀ : s₀.trips.requests.rows = [])
    (hclock : s₀.trips.clock ≤ t₀) (hforce : InForce s₀.trips.commissionPercent s₀.trips)
    (h : Timeline ledgerStep t₀ s₀ past s) : LedgerKept t₀ past s := by
  refine Timeline.invariant (LedgerKept t₀) ?_ (fun _ _ _ op _ hkept ht => hkept.step ht op) h
  refine ⟨sound_of_empty h₀ _, hclock, hforce, fun r hr => ?_⟩
  rw [← has_iff_mem, h₀] at hr
  cases hr

end Steps

/-! ### The law -/

/-- The share of a trip on commission: the percent at delivery of its fare in tomans, rounded. -/
def shareAtDelivery (past : List (Moment LedgerOp Store)) (x : LedgerRow) : Option ℤ :=
  if x.1.brokerPayModel.getD .commission = .commission then
    (x.2.filter fun d => d.currency = .toman).bind fun d =>
      (percentAtDelivery past x.1.id).map fun percent =>
        commissionOf d.total (percentNumber percent)
  else none

/-- A trip on commission whose fare was confirmed in another currency. -/
def otherCurrency (x : LedgerRow) : Bool :=
  x.1.brokerPayModel.getD .commission = .commission && x.2.any fun d => d.currency ≠ .toman

section Law

variable {t₀ percent : ℕ} {s s' s₀ : Store} {past later : List (Moment LedgerOp Store)}

/-- **The fallback on today's percent is never taken** for a trip with its share. -/
theorem commission_of_shared {T : Tables} {r : CargoRequest} (h : Shared percent T r) (today : ℕ) :
    ∃ d, T.fares.get (r.id, .delivered) = some d ∧
      commission today (withFare T r) =
        shareOf percent (r.brokerPayModel.getD .commission) d := by
  obtain ⟨model, d, hmodel, hd, hshare⟩ := h
  refine ⟨d, hd, ?_⟩
  rw [commission, onCommission, withFare, hd, caseWhen_decide, hshare, hmodel]
  show (if model = .commission then (shareOf percent model d).or
    (caseWhen (and3 (some false) _) _ none) else none) = shareOf percent model d
  rw [and3_false, caseWhen_false, Option.or_none]
  split
  · rfl
  · rename_i hmargin
    rw [shareOf, if_neg fun hboth => hmargin hboth.1]

theorem shared_of_brokerRows (hkept : LedgerKept t₀ past s) {company broker : ℕ} {x : LedgerRow}
    (hx : x ∈ brokerRows s.trips.toTables company broker) :
    ∃ percent, percentAtDelivery past x.1.id = some percent ∧
      Shared percent s.trips.toTables x.1 ∧ x = withFare s.trips.toTables x.1 := by
  obtain ⟨hmem, hfor, hdel, hfare⟩ := mem_brokerRows hx
  obtain ⟨percent, hpercent, hshared⟩ := hkept.shared x.1 (has_iff_mem.mp hmem) hdel hfor
  exact ⟨percent, hpercent, hshared, Prod.ext rfl hfare⟩

/-- What the query works out for a delivered trip is what the delivery fixed, at any percent. -/
theorem commission_eq_share (hkept : LedgerKept t₀ past s) {company broker : ℕ} {x : LedgerRow}
    (hx : x ∈ brokerRows s.trips.toTables company broker) (today : ℕ) :
    commission today x = shareAtDelivery past x := by
  obtain ⟨percent, hpercent, hshared, hrow⟩ := shared_of_brokerRows hkept hx
  obtain ⟨d, hd, hcommission⟩ := commission_of_shared hshared today
  rw [hrow, hcommission, shareAtDelivery, shareOf, withFare, hd, hpercent]
  by_cases hmodel : x.1.brokerPayModel.getD .commission = .commission
  · by_cases hcurrency : d.currency = .toman <;> simp [hmodel, hcurrency, Option.filter]
  · simp [hmodel]

theorem unpriced_iff (hkept : LedgerKept t₀ past s) {company broker : ℕ} {x : LedgerRow}
    (hx : x ∈ brokerRows s.trips.toTables company broker) (today : ℕ) :
    and3 (onCommission x) (some (commission today x).isNone) = some true ↔
      otherCurrency x = true := by
  obtain ⟨percent, hpercent, hshared, hrow⟩ := shared_of_brokerRows hkept hx
  obtain ⟨d, hd, hcommission⟩ := commission_of_shared hshared today
  rw [hrow, hcommission, onCommission, otherCurrency, shareOf, withFare, hd]
  by_cases hmodel : x.1.brokerPayModel.getD .commission = .commission
  · by_cases hcurrency : d.currency = .toman <;> simp [hmodel, hcurrency, and3]
  · simp [hmodel, and3]

theorem accountsOf_percent (hkept : LedgerKept t₀ past s) (company percent percent' : ℕ) :
    accountsOf s company percent = accountsOf s company percent' := by
  have haccount : accountOfUser s company percent = accountOfUser s company percent' := by
    funext b
    apply account_congr
    intro x hx
    rw [commission_eq_share hkept hx, commission_eq_share hkept hx]
  rw [accountsOf, accountsOf, haccount]

/-- The accounts are worked out from the trip tables, the payments and the users. -/
theorem accountsOf_congr (htables : s'.trips.toTables = s.trips.toTables)
    (hpaid : s'.settlements = s.settlements) (husers : s'.users = s.users) (company percent : ℕ) :
    accountsOf s' company percent = accountsOf s company percent := by
  have hbrokers : ledgerBrokers s' company = ledgerBrokers s company := by
    rw [ledgerBrokers, ledgerBrokers, htables, hpaid]
  have haccount : accountOfUser s' company percent = accountOfUser s company percent := by
    funext b
    rw [accountOfUser, accountOfUser, paidRows, paidRows, htables, hpaid]
  rw [accountsOf, accountsOf, hbrokers, haccount, husers]

/-- **What `accounts` answers.** -/
theorem accounts_run (hforce : InForce percent s.trips) (company : ℕ) :
    ((accounts company).run exec s).1 = .ok (percent, accountsOf s company percent) := by
  have hafter : (accounts company).After exec s
      (fun a _ => a = (percent, accountsOf s company percent)) (fun _ => False) := by
    rw [accounts, after_bind, after_trip]
    apply after_getPolicy_inForce hforce
    intro x hT _ _
    show (percent, accountsOf { s with trips := x } company percent) = _
    have hsame : accountsOf { s with trips := x } company percent = accountsOf s company percent :=
      @accountsOf_congr s { s with trips := x } hT rfl rfl company percent
    rw [hsame]
  unfold After at hafter
  generalize (accounts company).run exec s = out at hafter
  obtain ⟨a | a, s'⟩ := out
  · exact hafter.elim
  · rw [hafter]

/-- Changes of the percent leave everything an account is worked out from. -/
theorem policies_later {t₁ : ℕ} (h : Timeline ledgerStep t₁ s later s')
    (hlater : ∀ m ∈ later, ∃ percent, m.op = .setPolicy percent)
    (hforce : InForce s.trips.commissionPercent s.trips) :
    s'.trips.toTables = s.trips.toTables ∧ s'.settlements = s.settlements ∧ s'.users = s.users ∧
      InForce s'.trips.commissionPercent s'.trips := by
  induction h with
  | nil => exact ⟨rfl, rfl, rfl, hforce⟩
  | @snoc past x t op hrun ht ih =>
      obtain ⟨htables, hpaid, husers, _⟩ := ih fun m hm => hlater m (List.mem_cons_of_mem _ hm)
      obtain ⟨percent, hop⟩ := hlater _ List.mem_cons_self
      obtain rfl : op = .setPolicy percent := hop
      have hstep : ledgerStep t (.setPolicy percent) x =
          { x with trips := ((TripService.setPolicy percent).run TripStore.exec
            (atTime t x.trips)).2 } := by
        rw [ledgerStep, ledgerProgram, unanswered, run_bind, run_trip]
        generalize (TripService.setPolicy percent).run TripStore.exec (atTime t x.trips) = out
        obtain ⟨_ | _, _⟩ := out <;> rfl
      have hafter := after_setPolicy (E := fun _ => False) (atTime t x.trips) percent
      have hset := After.store (P := fun y => y.toTables = x.trips.toTables ∧ InForce percent y)
        (after_mono hafter (fun _ _ hq => ⟨hq.2.1, hq.2.2.2⟩) fun _ hfalse => hfalse.elim)
      rw [hstep]
      refine ⟨hset.1.trans htables, hpaid, husers, ⟨rfl, ?_⟩⟩
      intro entry hentry
      exact (hset.2.copy entry hentry).trans hset.2.setting.symm

end Law

/-- What a broker's request for a driver is answered elsewhere. -/
def forDriverAnswers : TripService.RequestAnswers where
  broker := true
  driverFor := .ok ⟨"d", "1", "2", "3", none, none, some "900", none, none⟩
  missing := []
  canSee := true
  border := .ok none
  useRequest := .ok true

/-- Load 1 of company 10 is open, broker 7 has its account, and the commission is ten percent. -/
def newLedger : Store where
  trips := { TripRun.oneLoad with commissionPercent := 1000 }
  settlements := .empty
  users := Table.empty.put ⟨7, none, some "b", none, none, none⟩

/-- The broker's request is accepted on commission and delivered at 1000 tomans; the percent is halved;
60 are paid. -/
def paidTrip : List (ℕ × LedgerOp) :=
  [(5, .settle 10 7 "60" none 10), (4, .setPolicy 500),
    (3, .trip (.deliver true 10 1 (some thousandTotal))),
    (2, .trip (.decide true 10 1 true ⟨some thousandTotal, some .commission⟩)),
    (1, .trip (.request forDriverAnswers 7 1 none))]

end TransportBackend.LedgerBalance
