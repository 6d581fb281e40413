import TransportBackend.TripInterleaving

/-!
# The broker's share under interleaving

The company's `deliver` writes the confirmed fare in one step and the request, with the broker's
share worked out from that fare, in a later one, after a single check of the status.  Two
confirmations of the same trip that both pass the check can leave the fare of one beside the share of
the other.

* `ShareMatches` — the commission on the request is the one of the confirmed fare on record;
* `share_matches_fare` — **it is**, in every run in which a confirmation saves the request beside its
  own fare and no fare is confirmed for a trip already delivered.
-/

namespace TransportBackend.DeliveryInterleaving

open TransportBackend.AtomicProgram
open TransportBackend.AtomicProgram.Prog
open TransportBackend.InterleavedRun
open TransportBackend.KeyedTable
open TransportBackend.TripFareRules
open TransportBackend.TripStore
open TransportBackend.TripService
open TransportBackend.TripRun
open TransportBackend.TripEffect
open TransportBackend.TripInterleaving

/-- Deliveries, and changes of the policy the broker's share is worked out with. -/
inductive DeliveryCall where
  | deliver (broker : Bool) (userId requestId : ℕ) (fareInput : Option TripFareInput)
  | setPolicy (commissionPercent : ℕ)

/-- What a call runs. -/
def deliveryProgram (cfg : Services) : DeliveryCall → Trip Unit
  | .deliver broker user id fareInput => unanswered (deliver cfg broker user id fareInput)
  | .setPolicy percent => unanswered (setPolicy percent)

theorem disciplined_deliveryProgram {cfg : Services} {S : Scope cfg} (call : DeliveryCall) :
    Disciplined S (deliveryProgram cfg call) (fun _ => True) := by
  cases call with
  | deliver broker user id fareInput =>
      exact disciplined_unanswered (disciplined_deliver broker user id fareInput)
  | setPolicy percent =>
      refine disciplined_unanswered ?_
      simp only [setPolicy, disciplined_bind, disciplined_issue]
      exact ⟨trivial, fun _ _ => ⟨trivial, fun _ _ => disciplined_getPolicy fun _ => trivial⟩⟩

/-! ### What is confirmed -/

/-- The commission on a request is the one of the delivered fare on record, at the percent stored
with it. -/
def ShareMatches (s : Store) (r : CargoRequest) : Prop :=
  r.forDriver.isSome = true → r.status = .delivered → r.brokerPayModel = some .commission →
    ∀ row, s.fares.get (r.id, .delivered) = some row → row.currency = .toman →
      ∃ percent, r.brokerCommissionPercent = some percent ∧
        r.brokerCommission = some (commissionOf row.view.total (percentNumber percent))

/-- The confirmation at an event: the request it saves and the fare it confirmed. -/
def confirms : Event Resp → Option (ℕ × Option TripFareValues)
  | .act _ (.saveRequest (.deliver fare) _ e) _ => some (e.id, fare)
  | _ => none

/-- The fare saved at an event. -/
def fareSave : Event Resp → Option TripFare
  | .act _ (.saveFare _ row) _ => some row
  | _ => none

/-- A confirmation saves the request beside its own fare, and no fare is confirmed for a trip
already delivered. -/
def OwnFare (_ : List (Event Resp)) (b : Conf Resp ServiceError Store) (e : Event Resp) : Prop :=
  (∀ x ∈ confirms e,
    (b.store.fares.get (x.1, .delivered)).map (fun row => (row.view.total, row.currency)) =
      x.2.map (fun v => (v.total, v.currency))) ∧
  ∀ row ∈ fareSave e, row.stage = .delivered →
    ∀ r ∈ b.store.requests.get row.requestId, r.status ≠ .delivered

instance (tr : List (Event Resp)) (b : Conf Resp ServiceError Store) (e : Event Resp) :
    Decidable (OwnFare tr b e) :=
  inferInstanceAs (Decidable ((∀ x ∈ confirms e,
    (b.store.fares.get (x.1, .delivered)).map (fun row => (row.view.total, row.currency)) =
      x.2.map (fun v => (v.total, v.currency))) ∧
    ∀ row ∈ fareSave e, row.stage = .delivered →
      ∀ r ∈ b.store.requests.get row.requestId, r.status ≠ .delivered))

variable {cfg : Services} {s : Store}

/-- Only a confirmation saves a request as delivered. -/
theorem Writes.delivers {w : Writer} {r e : CargoRequest} (h : Writes cfg w r e)
    (hs : e.status = .delivered) : ∃ fare, w = .deliver fare := by
  cases h with
  | deliver _ _ => exact ⟨_, rfl⟩
  | deliverBroker _ _ => exact ⟨_, rfl⟩
  | decide _ =>
      simp only [CargoRequest.decided] at hs
      split at hs <;> cases hs
  | respondOffer _ =>
      simp only [CargoRequest.answered] at hs
      split at hs <;> cases hs
  | remindDeliveries hacc => exact absurd (hacc.symm.trans hs) (by simp)
  | reportDelivery hacc => exact absurd (hacc.symm.trans hs) (by simp)
  | rejectDeliveryReport hacc => exact absurd (hacc.symm.trans hs) (by simp)
  | _ => cases hs

/-- The share `settleBroker` works out is the one of the fare it was given. -/
theorem settled_share {r : CargoRequest} {fare : Option TripFareValues} {percent : ℕ}
    {row : TripFare}
    (hmodel : (settled r fare percent).brokerPayModel = some .commission)
    (hfare : some (row.view.total, row.currency) = fare.map (fun v => (v.total, v.currency)))
    (htoman : row.currency = .toman) :
    (settled r fare percent).brokerCommissionPercent = some percent ∧
      (settled r fare percent).brokerCommission =
        some (commissionOf row.view.total (percentNumber percent)) := by
  obtain ⟨v, rfl, hv⟩ := Option.map_eq_some_iff.mp hfare.symm
  obtain ⟨htotal, hcurrency⟩ := Prod.mk.inj hv
  have hpay : r.brokerPayModel.getD .commission = .commission := Option.some.inj hmodel
  simp only [settled, hpay, brokerEarning, if_true, hcurrency, htoman, htotal, and_self]

/-- What one command makes of a fare on record: nothing, unless it saves this fare. -/
theorem exec_fare (c : TripCmd) (s : Store) (key : ℕ × TripFareStage) :
    (exec c s).2.fares.get key = s.fares.get key ∨
      ∃ isNew row, c = .saveFare isNew row ∧ row.key = key := by
  cases c with
  | saveFare isNew row =>
      simp only [exec, Tables.saveFare]
      split
      · exact .inl rfl
      · by_cases hkey : row.key = key
        · exact .inr ⟨isNew, row, rfl, hkey⟩
        · exact .inl (Table.get_put_of_ne fun hc => hkey hc.symm)
  | saveRequest w read e =>
      simp only [exec, Tables.saveRequest]
      split <;> exact .inl rfl
  | insertRequest w e =>
      simp only [exec, Tables.insertRequest]
      split <;> exact .inl rfl
  | changeStatus trip lid status now =>
      simp only [exec, Tables.changeStatus]
      split
      · exact .inl rfl
      · split <;> exact .inl rfl
  | insertListing e =>
      simp only [exec, Tables.insertListing]
      split <;> exact .inl rfl
  | _ => exact .inl rfl

/-! ### The invariant of a run -/

theorem shareMatches_exec {S : Scope ⟨true, true⟩} {c : TripCmd} {pid : ℕ}
    {tr : List (Event Resp)} {b : Conf Resp ServiceError Store} (hc : Issues S c)
    (hok : OwnFare tr b (.act pid c (exec c b.store).1))
    (h : ∀ r, Has b.store.toTables r → ShareMatches b.store r) :
    ∀ r, Has (exec c b.store).2.toTables r → ShareMatches (exec c b.store).2 r := by
  intro r' hr' hbroker hdel hmodel row hrow htoman
  rcases exec_cell c b.store r'.id with
    hkeep | ⟨w, read, e, rfl, hid, hfree, hsaved⟩ | ⟨w, e, rfl, _, hnew⟩
  · -- the row is as it was, and so is its fare: none is confirmed for a delivered trip
    have hr : Has b.store.toTables r' := hkeep.symm.trans hr'
    refine h r' hr hbroker hdel hmodel row ?_ htoman
    rcases exec_fare c b.store (r'.id, .delivered) with hfare | ⟨isNew, saved, rfl, hkey⟩
    · exact hfare.symm.trans hrow
    · obtain ⟨hid, hstage⟩ := Prod.mk.inj hkey
      exact absurd hdel (hok.2 saved rfl hstage r' (by rw [hid]; exact hr))
  · have he : e.stamped (b.store.requests.get r'.id) b.store.clock = r' :=
      Option.some.inj (hsaved.symm.trans hr')
    have hfares : (exec (.saveRequest w read e) b.store).2.fares = b.store.fares := by
      simp only [exec, Tables.saveRequest, hfree]
      rfl
    rw [hfares, ← hid] at hrow
    obtain ⟨_, hw⟩ := hc
    generalize b.store.requests.get r'.id = stored at he
    subst he
    obtain ⟨fare, rfl⟩ := Writes.delivers hw hdel
    have hown : (b.store.fares.get (e.id, .delivered)).map
        (fun row => (row.view.total, row.currency)) = fare.map (fun v => (v.total, v.currency)) :=
      hok.1 (e.id, fare) rfl
    rw [hrow] at hown
    cases hw with
    | deliver hs hnot =>
        have hdriver : read.forDriver.isSome = true := hbroker
        simp [hdriver] at hnot
    | deliverBroker hs _ => exact ⟨_, settled_share hmodel hown htoman⟩
  · have hoff : e.onTrip = false := hc.2
    rw [← Option.some.inj (hnew.symm.trans hr')] at hdel
    simp [CargoRequest.onTrip, show e.status = .delivered from hdel] at hoff

/-- **The broker's share matches the confirmed fare**, in every run in which a confirmation saves
the request beside its own fare and no fare is confirmed for a trip already delivered. -/
theorem share_matches_fare {s₀ : Store} (h₀ : ∀ r ∈ s₀.requests.rows, r.status ≠ .delivered)
    {tr : List (Event Resp)} {b : Conf Resp ServiceError Store}
    (h : (serviceMachine (deliveryProgram ⟨true, true⟩)).Run OwnFare (.start s₀) tr b) :
    ∀ r ∈ b.store.requests.rows, ShareMatches b.store r := by
  simp only [has_iff_mem] at h₀ ⊢
  refine Machine.Run.invariant
    (fun _ b => ∀ r, Has b.store.toTables r → ShareMatches b.store r) ?_ ?_ h
  · intro r hr _ hdel
    exact absurd hdel (h₀ r hr)
  · intro tr b l e c hrun ih hs hok
    obtain ⟨_, hin⟩ := disciplined_run
      (fun call => disciplined_deliveryProgram (S := .any ⟨true, true⟩) call) (fun _ _ => trivial) hrun
    rcases serviceStep_cases hs with ⟨_, _, rfl⟩ | ⟨_, _, rfl⟩ | ⟨pid, cmd, k, hpool, rfl, rfl⟩
    · exact ih
    · exact ih
    · exact shareMatches_exec (Machine.pre_of_within hin hpool) hok ih

/-- What a broker's request is answered elsewhere when nothing stands in its way. -/
def brokerAnswers : RequestAnswers where
  broker := true
  driverFor := .ok
    { name := "d", nationalCode := "1", mobile := "2", plate := "3", transitPlate := none,
      companyName := none, fare := none, exitBorder := none, referrer := none }
  missing := []
  canSee := true
  border := .ok none
  useRequest := .ok true

/-- The trip of a broker's request on load 1, at a commission of ten percent. -/
def brokerTrip : Store :=
  { (replay ⟨false, true⟩ oneLoad [(2, .decide true 10 1 true ⟨none, none⟩),
      (1, .request brokerAnswers 7 1 none)]).2 with commissionPercent := 1000 }

/-- A fare for the whole truck, ten tons. -/
def totalFare (rate : ℚ) : TripFareInput :=
  ⟨.value .total, some rate, some 10, .absent, .absent, none⟩

/-- One confirmation at 1000. -/
def confirmedSchedule : List (serviceMachine (deliveryProgram ⟨true, true⟩)).Label :=
  begins _ 0 (.deliver true 10 1 (some (totalFare 1000))) 12

theorem share_matches_fare_confirmed :
    ∃ tr b, (serviceMachine (deliveryProgram ⟨true, true⟩)).Run OwnFare (.start brokerTrip) tr b ∧
      (b.store.requests.get 1).map (fun r => (r.status, r.brokerCommission)) =
        some (.delivered, some 100) ∧ ∀ r ∈ b.store.requests.rows, ShareMatches b.store r := by
  have hplay : ((serviceMachine (deliveryProgram ⟨true, true⟩)).play OwnFare []
      (.start brokerTrip) confirmedSchedule).any (fun x =>
        (x.2.store.requests.get 1).map (fun r => (r.status, r.brokerCommission)) =
          some (.delivered, some 100)) = true := by
    decide +kernel
  simp only [Option.any_eq_true, decide_eq_true_eq] at hplay
  obtain ⟨⟨tr, b⟩, hp, hrow⟩ := hplay
  have hrun := Machine.play_run .nil hp
  exact ⟨tr, b, hrun, hrow, share_matches_fare (by decide) hrun⟩

/-- A confirmation at 1000 writes its fare; another one at 2000 runs whole; then the first saves the
request. -/
def twoConfirmationsSchedule : List (serviceMachine (deliveryProgram ⟨true, true⟩)).Label :=
  [begins _ 0 (.deliver true 10 1 (some (totalFare 1000))) 4,
    begins _ 1 (.deliver true 10 1 (some (totalFare 2000))) 12,
    List.replicate 5 (.act 0 ())].flatten

/-- The fare on record is the one of 2000, the share the one of 1000. -/
theorem two_confirmations_mix :
    ¬∀ tr b, (serviceMachine (deliveryProgram ⟨true, true⟩)).Run (fun _ _ _ => True)
        (.start brokerTrip) tr b → b.Quiet →
      ∀ r ∈ b.store.requests.rows, ShareMatches b.store r := by
  intro hclaim
  have hplay : ((serviceMachine (deliveryProgram ⟨true, true⟩)).play (fun _ _ _ => True) []
      (.start brokerTrip) twoConfirmationsSchedule).any (fun x => x.2.Quiet ∧
        (x.2.store.requests.get 1).map (fun r => (r.forDriver.isSome, r.status,
          r.brokerPayModel)) = some (true, .delivered, some .commission) ∧
        (x.2.store.requests.get 1).map (fun r => (r.brokerCommission,
          r.brokerCommissionPercent)) = some (some 100, some 1000) ∧
        (x.2.store.fares.get (1, .delivered)).map (fun row =>
          (row.currency, commissionOf row.view.total (percentNumber 1000))) =
          some (.toman, 200)) = true := by
    decide +kernel
  simp only [Option.any_eq_true, decide_eq_true_eq] at hplay
  obtain ⟨⟨tr, b⟩, hp, hquiet, hrow, hpaid, hfare⟩ := hplay
  obtain ⟨r, hr, hcols⟩ := Option.map_eq_some_iff.mp hrow
  obtain ⟨row, hget, hshare⟩ := Option.map_eq_some_iff.mp hfare
  rw [hr, Option.map_some] at hpaid
  simp only [Prod.mk.injEq, Option.some.injEq] at hcols hshare hpaid
  obtain ⟨hbroker, hdel, hmodel⟩ := hcols
  have hget' : b.store.fares.get (r.id, .delivered) = some row := by
    rw [Table.key_of_get hr]
    exact hget
  obtain ⟨percent, hp', hc'⟩ := hclaim tr b (Machine.play_run .nil hp) hquiet r
    (Table.mem_of_get hr) hbroker hdel hmodel row hget' hshare.1
  cases hpaid.2.symm.trans hp'
  rw [hpaid.1, hshare.2] at hc'
  cases hc'

end TransportBackend.DeliveryInterleaving
