import TransportBackend.InterleavedRun
import TransportBackend.TripEffect

/-!
# Trip operations under interleaving

Any number of calls of the trip and listing services on one store, each repository call one atomic
step, in any order (`serviceMachine`).  Between the read of a row and its save anything may happen to
it, and a save carries no condition: what survives is what a call knows of its own memory.  That is
written down once for all methods (`Disciplined`): every save carries the row the call had read,
in the status the method checked, and the columns the method assigns.

* `Writes` — for each kind of save, the row read and the entity saved;
* `disciplined_programOf` — **every operation saves only such entities**, whatever it is answered;
* `no_lost_trip` — a trip ends only by its delivery or its cancellation, in every run in which no
  save hits a running or delivered trip that its call had read in another state.
-/

namespace TransportBackend.TripInterleaving

open TransportBackend.AtomicProgram
open TransportBackend.AtomicProgram.Prog
open TransportBackend.InterleavedRun
open TransportBackend.KeyedTable
open TransportBackend.TripFareRules
open TransportBackend.TripStore
open TransportBackend.ListingService
open TransportBackend.TripService
open TransportBackend.TripRun
open TransportBackend.TripEffect

/-- The calls of the services on one store; time passes between their steps. -/
def serviceMachine {Call : Type} (program : Call → Trip Unit) :
    Machine Resp ServiceError Store where
  Choice := Unit
  Outside := ℕ
  Call := Call
  exec _ c s := some (exec c s)
  outside passed s := some { s with clock := s.clock + passed }
  begin call s := some (program call, s)

/-- What a step of the services can do: time passes, a call starts, or a call issues a command. -/
theorem serviceStep_cases {Call : Type} {program : Call → Trip Unit}
    {b c : Conf Resp ServiceError Store} {l : (serviceMachine program).Label} {e : Event Resp}
    (hs : (serviceMachine program).step b l = some (e, c)) :
    (∃ passed, e = .outside ∧
      c = ⟨{ b.store with clock := b.store.clock + passed }, b.pool⟩) ∨
    (∃ call, e = .start b.pool.length ∧ c = ⟨b.store, b.pool ++ [program call]⟩) ∨
    ∃ pid cmd k, b.pool[pid]? = some (.call cmd k) ∧ e = .act pid cmd (exec cmd b.store).1 ∧
      c = ⟨(exec cmd b.store).2, b.pool.set pid (k (exec cmd b.store).1)⟩ := by
  cases l with
  | outside passed =>
      obtain ⟨s, hs', he, hc⟩ := Machine.step_outside hs
      obtain rfl := Option.some.inj hs'
      exact .inl ⟨passed, he, hc⟩
  | start call =>
      obtain ⟨p, s, hb, he, hc⟩ := Machine.step_start hs
      obtain ⟨rfl, rfl⟩ := Prod.mk.inj (Option.some.inj hb)
      exact .inr (.inl ⟨call, he, hc⟩)
  | act pid choice =>
      obtain ⟨cmd, k, resp, s, hpool, hx, he, hc⟩ := Machine.step_act hs
      have hrun : exec cmd b.store = (resp, s) := Option.some.inj hx
      exact .inr (.inr ⟨pid, cmd, k, hpool, by rw [he, hrun], by rw [hc, hrun]⟩)

/-! ### What a save carries -/

/-- The row a call had read and the entity it saves, for each kind of save. -/
inductive Writes (cfg : Services) : Writer → CargoRequest → CargoRequest → Prop where
  | request {r : CargoRequest} {source : Option UsageChannel} {driverFor : Option BrokerDriver}
      {border : Option String} (hs : waitsOrRuns r = false) :
      Writes cfg .request r (r.asked source driverFor border)
  | cancel {r : CargoRequest} (hs : r.status = .pending) : Writes cfg .cancel r r.withdrawn
  | decide {r : CargoRequest} {accept : Bool} {payModel : Option BrokerPayModel} {now : ℕ}
      (hs : r.status = .pending) : Writes cfg .decide r (r.decided accept payModel now)
  | completeAssignment {r : CargoRequest} {now : ℕ} (hs : r.status = .pending) :
      Writes cfg .completeAssignment r (r.turnedDown now)
  | offer {r : CargoRequest} {now : ℕ} : Writes cfg .offer r (r.handed now)
  | respondOffer {r : CargoRequest} {accept : Bool} {now : ℕ} (hs : r.status = .offered) :
      Writes cfg .respondOffer r (r.answered accept now)
  | expire {r : CargoRequest} (hs : r.status = .offered) : Writes cfg .expire r r.lapsed
  | remindDeliveries {r : CargoRequest} {now : ℕ} (hs : r.status = .accepted) :
      Writes cfg .remindDeliveries r (r.reminded now)
  | reportDelivery {r : CargoRequest} {now : ℕ} (hs : r.status = .accepted) :
      Writes cfg .reportDelivery r (r.reported now)
  | deliver {r : CargoRequest} {fare : Option TripFareValues} {now : ℕ} (hs : r.status = .accepted)
      (hown : (r.forDriver.isSome && cfg.brokerAccess) = false) :
      Writes cfg (.deliver fare) r (r.confirmed now)
  | deliverBroker {r : CargoRequest} {fare : Option TripFareValues} {now percent : ℕ}
      (hs : r.status = .accepted) (hbroker : (r.forDriver.isSome && cfg.brokerAccess) = true) :
      Writes cfg (.deliver fare) r (settled (r.confirmed now) fare percent)
  | cancelTrip {r : CargoRequest} {now : ℕ} (hs : r.status = .accepted) :
      Writes cfg .cancelTrip r (r.calledOff now)
  | revive {r : CargoRequest} (hs : r.status = .rejected) : Writes cfg .revive r r.waitingAgain
  | rejectDeliveryReport {r : CargoRequest} (hs : r.status = .accepted) :
      Writes cfg .rejectDeliveryReport r r.unreported

/-- What a group of calls may rely on: a property of every row of the table, kept by every save, and
whether its calls create rows. -/
structure Scope (cfg : Services) where
  known : CargoRequest → Prop
  creates : Prop
  saved : ∀ {w read e}, known read → Writes cfg w read e → ∀ stored now, known (e.stamped stored now)
  inserted : creates → ∀ e id now, known (CargoRequest.inserted id now e)

/-- Nothing is known of the rows. -/
def Scope.any (cfg : Services) : Scope cfg where
  known _ := True
  creates := True
  saved _ _ _ _ := trivial
  inserted _ _ _ _ := trivial

/-- The commands a method issues. -/
def Issues {cfg : Services} (S : Scope cfg) : TripCmd → Prop
  | .saveRequest w read e => S.known read ∧ Writes cfg w read e
  | .insertRequest _ e => S.creates ∧ e.onTrip = false
  | .saveListing read e => e.id = read.id ∧ e.status = read.status
  | .changeStatus (some k) lid status _ =>
      status = .taken ∧ ∃ r, S.known r ∧ r.id = k ∧ r.listingId = lid
  | _ => True

/-- What a method may take from the answers: rows of the table, in the status the query asks for. -/
def Answers {cfg : Services} (S : Scope cfg) : (c : TripCmd) → Resp c → Prop
  | .findRequest _, found => ∀ rl ∈ found, S.known rl.1
  | .findByListingAndDriver _ _, found => ∀ r ∈ found, S.known r
  | .findExpiredOffers _ _, rs => ∀ r ∈ rs, S.known r ∧ r.status = .offered
  | .findOtherPending _ _, rs => ∀ r ∈ rs, S.known r ∧ r.status = .pending
  | .findTakenOver _ _ _, rs => ∀ r ∈ rs, S.known r ∧ r.status = .rejected
  | .findTripsDueDeliveryReminder _, rs => ∀ r ∈ rs, S.known r ∧ r.status = .accepted
  | .findOneForPublisher id _, found => ∀ l ∈ found, l.id = id
  | _, _ => True

/-- The answers of the store are such answers. -/
theorem answers_exec {cfg : Services} {S : Scope cfg} {s : Store}
    (h : ∀ r, Has s.toTables r → S.known r) (c : TripCmd) : Answers S c (exec c s).1 := by
  cases c with
  | findRequest id =>
      intro rl hrl
      simp only [exec, Option.mem_def, Option.bind_eq_some_iff, Option.map_eq_some_iff] at hrl
      obtain ⟨r, hr, l, _, rfl⟩ := hrl
      exact h r (has_of_get hr)
  | findByListingAndDriver l d => exact fun r hr => h r (ofDriver_has hr).1
  | findExpiredOffers now take =>
      intro r hr
      obtain ⟨hhas, hexp⟩ := mem_expiredOffers.mp (List.mem_of_mem_take hr)
      simp only [CargoRequest.expiredOffer, Bool.and_eq_true, decide_eq_true_eq] at hexp
      exact ⟨h r hhas, hexp.1⟩
  | findOtherPending l e =>
      intro r hr
      obtain ⟨hhas, _, hs, _⟩ := mem_otherPending.mp hr
      exact ⟨h r hhas, hs⟩
  | findTakenOver l e since =>
      intro r hr
      obtain ⟨hhas, _, hs, _⟩ := mem_takenOver.mp hr
      exact ⟨h r hhas, hs⟩
  | findTripsDueDeliveryReminder before =>
      intro r hr
      obtain ⟨hhas, hs, _⟩ := mem_tripsDue.mp hr
      exact ⟨h r hhas, hs⟩
  | findOneForPublisher id user =>
      intro l hl
      exact Table.key_of_get (Option.mem_filter_iff.mp hl).1
  | _ => trivial

/-! ### Every operation is disciplined -/

/-- Every command of the method is one it may issue, and what it returns satisfies `Q`, whatever it
is answered. -/
def Disciplined {α : Type} {cfg : Services} (S : Scope cfg) (p : Trip α) (Q : α → Prop) :
    Prop := p.Within (Issues S) (Answers S) Q

section Rules

variable {cfg : Services} {S : Scope cfg} {α β : Type} {Q : α → Prop}

@[simp] theorem disciplined_pure (a : α) : Disciplined S (pure a) Q ↔ Q a := Iff.rfl

@[simp] theorem disciplined_throw (e : ServiceError) :
    Disciplined S (.throw e : Trip α) Q ↔ True := Iff.rfl

@[simp] theorem disciplined_bind (p : Trip β) (f : β → Trip α) :
    Disciplined S (p >>= f) Q ↔
      Disciplined S p (fun b => Disciplined S (f b) Q) := within_bind p f

@[simp] theorem disciplined_refuseIf (p : Prop) [Decidable p] (e : ServiceError)
    {Q : Unit → Prop} : Disciplined S (.refuseIf p e) Q ↔ (¬p → Q ()) := within_refuseIf p e

@[simp] theorem disciplined_orThrow (e : ServiceError) (o : Option α) :
    Disciplined S (.orThrow e o) Q ↔ ∀ a, o = some a → Q a := within_orThrow e o

@[simp] theorem disciplined_issue (c : TripCmd) {Q : Resp c → Prop} :
    Disciplined (α := no_index (Resp c)) S (issue c) Q ↔
      Issues S c ∧ ∀ r, Answers S c r → Q r := Iff.rfl

@[simp] theorem disciplined_dateNow {Q : ℕ → Prop} :
    Disciplined S dateNow Q ↔ ∀ now, Q now :=
  ⟨fun h now => h.2 now trivial, fun h => ⟨trivial, fun now _ => h now⟩⟩

@[simp] theorem disciplined_runIf (b : Bool) (p : Trip Unit) {Q : Unit → Prop} :
    Disciplined S (runIf b p) Q ↔
      (b = true → Disciplined S p Q) ∧ (b = false → Q ()) := by
  cases b <;> simp [runIf, Disciplined]

@[simp] theorem disciplined_notify (u : ℕ) (k : NoticeKey) (id : ℕ) {Q : Unit → Prop} :
    Disciplined S (notify u k id) Q ↔ Q () :=
  ⟨fun h => h.2 () trivial, fun h => ⟨trivial, fun _ _ => h⟩⟩

theorem disciplined_mono {p : Trip α} {Q' : α → Prop} (h : Disciplined S p Q)
    (hQ : ∀ a, Q a → Q' a) : Disciplined S p Q' := within_mono h hQ

theorem disciplined_forEach {body : β → Trip Unit} {xs : List β} {Q : Unit → Prop}
    (hbody : ∀ x ∈ xs, Disciplined S (body x) (fun _ => True)) (hQ : Q ()) :
    Disciplined S (.forEach body xs) Q := within_forEach hbody hQ

theorem disciplined_saveRequest {w : Writer} {r e : CargoRequest} {Q : Unit → Prop}
    (hr : S.known r) (hw : Writes cfg w r e) (hQ : Q ()) :
    Disciplined S (saveRequest w r e) Q := by
  simp only [saveRequest, disciplined_bind, disciplined_issue, disciplined_refuseIf]
  exact ⟨⟨hr, hw⟩, fun _ _ _ => hQ⟩

theorem disciplined_saveTrip {w : Writer} {r e : CargoRequest} {Q : Unit → Prop}
    (hr : S.known r) (hw : Writes cfg w r e) (hQ : Q ()) :
    Disciplined S (saveTrip w r e) Q := by
  simp only [saveTrip, disciplined_bind, disciplined_issue, disciplined_refuseIf]
  exact ⟨⟨hr, hw⟩, fun _ _ _ => hQ⟩

theorem disciplined_owned {id : ℕ} {allowed : CargoRequest → Bool}
    {Q : CargoRequest × CargoListing → Prop}
    (h : ∀ r l, S.known r → allowed r = true → Q (r, l)) :
    Disciplined S (owned id allowed) Q := by
  simp only [owned, disciplined_bind, disciplined_issue, disciplined_orThrow]
  refine ⟨trivial, fun found hfound rl hrl => ?_⟩
  obtain ⟨hmem, hallowed⟩ := Option.filter_eq_some_iff.mp hrl
  exact h rl.1 rl.2 (hfound rl hmem) hallowed

theorem disciplined_reload {id : ℕ} {Q : CargoRequest → Prop} (h : ∀ r, Q r) :
    Disciplined S (reload id) Q := by
  simp only [reload, disciplined_bind, disciplined_issue, disciplined_orThrow]
  exact ⟨trivial, fun _ _ r _ => h r⟩

theorem disciplined_upsert {id : ℕ} {stage : TripFareStage} {v : TripFareValues} {user : ℕ}
    {Q : Unit → Prop} (h : Q ()) : Disciplined S (upsert id stage v user) Q := by
  simp only [upsert, disciplined_bind, disciplined_issue, disciplined_refuseIf]
  exact ⟨trivial, fun _ _ => ⟨trivial, fun _ _ _ => h⟩⟩

theorem disciplined_fareIf {kept : Bool} {input : Option TripFareInput}
    {Q : Option TripFareValues → Prop} (h : ∀ fare, Q fare) :
    Disciplined S (fareIf kept input) Q := by
  unfold fareIf readFare
  cases kept with
  | false => exact h none
  | true =>
      cases readTripFare input with
      | error e => trivial
      | ok v => exact h (some v)

theorem disciplined_recordAgreedIfGiven {r : CargoRequest} {fare : Option TripFareValues}
    {user : ℕ} {Q : Unit → Prop} (h : Q ()) :
    Disciplined S (recordAgreedIfGiven r fare user) Q := by
  cases fare with
  | none => exact h
  | some v =>
      simp only [recordAgreedIfGiven, recordAgreed, disciplined_bind, disciplined_runIf,
        disciplined_issue, disciplined_refuseIf]
      exact ⟨fun _ => ⟨trivial, fun _ _ _ => disciplined_upsert h⟩, fun _ => disciplined_upsert h⟩

theorem disciplined_recordDeliveredIfGiven {r : CargoRequest} {fare : Option TripFareValues}
    {user : ℕ} {Q : Unit → Prop} (h : Q ()) :
    Disciplined S (recordDeliveredIfGiven r fare user) Q := by
  cases fare with
  | none => exact h
  | some v =>
      simp only [recordDeliveredIfGiven, recordDelivered, disciplined_bind, disciplined_issue,
        disciplined_refuseIf]
      exact ⟨trivial, fun _ _ _ => disciplined_upsert h⟩

theorem disciplined_getPolicy {Q : ℕ → Prop} (h : ∀ percent, Q percent) :
    Disciplined S getPolicy Q := by
  simp only [getPolicy, disciplined_bind, disciplined_issue, disciplined_dateNow]
  refine ⟨trivial, fun cached _ now => ?_⟩
  split
  · exact h _
  · simp only [readPolicy, disciplined_bind, disciplined_issue, disciplined_dateNow,
      disciplined_pure]
    exact ⟨trivial, fun percent _ _ => ⟨trivial, fun _ _ => h percent⟩⟩

theorem disciplined_setStatus {trip : Option ℕ} {user lid : ℕ} {status : CargoListingStatus}
    {Q : Unit → Prop}
    (htrip : ∀ k, trip = some k → status = .taken ∧ ∃ r, S.known r ∧ r.id = k ∧ r.listingId = lid)
    (h : Q ()) : Disciplined S (setStatus trip user lid status) Q := by
  simp only [setStatus, disciplined_bind, disciplined_issue, disciplined_orThrow,
    disciplined_runIf, disciplined_dateNow, disciplined_refuseIf, disciplined_pure]
  refine ⟨trivial, fun found hfound l hl => ?_⟩
  obtain rfl : l.id = lid := hfound l hl
  have hset : ∀ now, Issues S (.changeStatus trip l.id status now) ∧
      ∀ changed, Answers S (.changeStatus trip l.id status now) changed →
        (changed = true → Issues S (.findOneForPublisher l.id user) ∧
          ∀ updated, Answers S (.findOneForPublisher l.id user) updated →
            ∀ a, updated = some a → Q ()) ∧ (changed = false → Q ()) := by
    intro now
    refine ⟨?_, fun _ _ => ⟨fun _ => ⟨trivial, fun _ _ _ _ => h⟩, fun _ => h⟩⟩
    cases trip with
    | none => trivial
    | some k => exact htrip k rfl
  exact ⟨fun _ now => ⟨trivial, fun _ _ _ => ⟨fun _ => ⟨trivial, fun _ _ _ => hset⟩, fun _ => hset⟩⟩,
    fun _ => ⟨fun _ => ⟨trivial, fun _ _ _ => hset⟩, fun _ => hset⟩⟩

theorem disciplined_completeAssignment {r e : CargoRequest} {Q : Unit → Prop} (hr : S.known r)
    (hid : e.id = r.id) (hlid : e.listingId = r.listingId) (h : Q ()) :
    Disciplined S (completeAssignment e) Q := by
  simp only [completeAssignment, disciplined_bind]
  refine disciplined_setStatus (fun k hk => ?_) ?_
  · exact ⟨rfl, r, hr, by rw [← hid]; exact Option.some.inj hk, hlid.symm⟩
  · simp only [disciplined_issue]
    refine ⟨trivial, fun others hothers => disciplined_forEach (fun other hmem => ?_) h⟩
    simp only [disciplined_bind, disciplined_dateNow]
    intro now
    obtain ⟨hknown, hs⟩ := hothers other hmem
    exact disciplined_saveRequest hknown (.completeAssignment hs) trivial

theorem disciplined_expire {r : CargoRequest} {Q : Unit → Prop} (hr : S.known r)
    (hs : r.status = .offered) (h : Q ()) : Disciplined S (expire r) Q := by
  simp only [expire, disciplined_bind, disciplined_notify]
  exact disciplined_saveRequest hr (.expire hs) h

theorem disciplined_dealPayModel {accept : Bool} {deal : Deal} {r : CargoRequest}
    {Q : Option BrokerPayModel → Prop} (h : ∀ payModel, Q payModel) :
    Disciplined S (dealPayModel cfg accept deal r) Q := by
  unfold dealPayModel
  split
  · split
    · exact h _
    · split
      · simp only [lastPayModel, disciplined_bind, disciplined_issue, disciplined_pure]
        exact ⟨trivial, fun _ _ => h _⟩
      · exact h _
  · exact h _

theorem disciplined_refuseReserved {lid : ℕ} {Q : Unit → Prop} (h : Q ()) :
    Disciplined S (refuseReserved lid) Q := by
  simp only [refuseReserved, disciplined_bind, disciplined_dateNow, disciplined_issue,
    disciplined_refuseIf]
  exact fun _ => ⟨trivial, fun _ _ _ => h⟩

/-- The loaded row saved, or a new one inserted. -/
theorem disciplined_saveOrInsert {w : Writer} {existing : Option CargoRequest}
    {created : CargoRequest} {change : CargoRequest → CargoRequest} {Q : CargoRequest → Prop}
    (hcreates : S.creates) (hold : ∀ r ∈ existing, S.known r ∧ Writes cfg w r (change r))
    (hnew : (change created).onTrip = false) (h : ∀ r, Q r) :
    Disciplined S (saveOrInsert w existing created change) Q := by
  cases existing with
  | some old =>
      obtain ⟨hknown, hw⟩ := hold old rfl
      simp only [saveOrInsert, disciplined_bind, disciplined_pure]
      exact disciplined_saveRequest hknown hw (h _)
  | none =>
      simp only [saveOrInsert, insertRequest, disciplined_bind, disciplined_issue,
        disciplined_orThrow]
      exact ⟨⟨hcreates, hnew⟩, fun _ _ r _ => h r⟩

theorem disciplined_requestFor {answers : RequestAnswers} {Q : Option BrokerDriver → Prop}
    (h : ∀ driverFor, Q driverFor) : Disciplined S (requestFor answers) Q := by
  unfold requestFor
  split
  · cases answers.driverFor with
    | error e => trivial
    | ok driver => exact h (some driver)
  · simp only [disciplined_bind, disciplined_refuseIf, disciplined_pure]
    exact fun _ => h none

theorem disciplined_charge {answers : RequestAnswers} {Q : Unit → Prop} (h : Q ()) :
    Disciplined S (charge cfg answers) Q := by
  unfold charge
  split
  · exact h
  · trivial

/-! ### The methods -/

theorem disciplined_request (hcreates : S.creates) (answers : RequestAnswers) (driver lid : ℕ)
    (source : Option UsageChannel) :
    Disciplined S (request cfg answers driver lid source) (fun _ => True) := by
  simp only [request, disciplined_bind, disciplined_issue, disciplined_orThrow,
    disciplined_refuseIf, disciplined_notify, disciplined_pure, requestAllowed,
    disciplined_dateNow]
  refine disciplined_requestFor fun driverFor => ⟨trivial, fun _ _ l _ _ _ _ => ?_⟩
  cases answers.border with
  | error e => trivial
  | ok border =>
      refine ⟨trivial, fun existing hexisting hwait _ => ⟨trivial, fun _ _ _ _ _ => ?_⟩⟩
      refine disciplined_charge ?_
      refine disciplined_saveOrInsert hcreates (fun r hr => ⟨hexisting r hr, .request ?_⟩) rfl
        fun _ => disciplined_reload fun _ => trivial
      cases hr
      simpa using hwait

theorem disciplined_cancel (broker : Bool) (driver id : ℕ) :
    Disciplined S (cancel broker driver id) (fun _ => True) := by
  simp only [cancel, disciplined_bind, disciplined_refuseIf, disciplined_notify, disciplined_pure]
  refine disciplined_owned fun r l hr _ hs => ?_
  exact disciplined_saveRequest hr (.cancel (not_not.mp hs)) (disciplined_reload fun _ => trivial)

theorem disciplined_decide (broker : Bool) (company id : ℕ) (accept : Bool) (deal : Deal) :
    Disciplined S (TripService.decide cfg broker company id accept deal)
      (fun _ => True) := by
  simp only [TripService.decide, disciplined_bind, disciplined_refuseIf, disciplined_runIf,
    disciplined_dateNow, disciplined_notify, disciplined_pure]
  refine disciplined_fareIf fun fare => disciplined_owned fun r l hr _ hs _ => ?_
  have hsave : Disciplined S (recordAgreedIfGiven r fare company) fun _ =>
      Disciplined S (dealPayModel cfg accept deal r) fun payModel => ∀ now,
        Disciplined S (saveTrip .decide r (r.decided accept payModel now)) fun _ =>
          (accept = true → Disciplined S
            (completeAssignment (r.decided accept payModel now)) fun _ => True) ∧
          (accept = false → True) := by
    refine disciplined_recordAgreedIfGiven (disciplined_dealPayModel fun payModel now => ?_)
    refine disciplined_saveTrip hr (.decide (not_not.mp hs)) ⟨fun _ => ?_, fun _ => trivial⟩
    exact disciplined_completeAssignment hr rfl rfl trivial
  exact ⟨fun _ => disciplined_refuseReserved hsave, fun _ => hsave⟩

theorem disciplined_offer (hcreates : S.creates) (isDriver : Bool) (company lid driver : ℕ)
    (fareInput : Option TripFareInput) :
    Disciplined S (offer cfg isDriver company lid driver fareInput) (fun _ => True) := by
  simp only [offer, ownOpenListing, disciplined_bind, disciplined_issue, disciplined_orThrow,
    disciplined_refuseIf, disciplined_dateNow, disciplined_notify, disciplined_pure]
  refine disciplined_fareIf fun fare => ⟨trivial, fun _ _ l _ _ _ _ => ?_⟩
  refine disciplined_refuseReserved ⟨trivial, fun existing hexisting now => ?_⟩
  refine disciplined_saveOrInsert hcreates (fun r hr => ⟨hexisting r hr, .offer⟩) rfl fun _ => ?_
  exact disciplined_reload fun _ => disciplined_recordAgreedIfGiven trivial

theorem disciplined_respondOffer (driver id : ℕ) (accept : Bool) :
    Disciplined S (respondOffer driver id accept) (fun _ => True) := by
  simp only [respondOffer, disciplined_bind, disciplined_refuseIf, disciplined_runIf,
    disciplined_dateNow, disciplined_notify, disciplined_pure, disciplined_throw]
  refine disciplined_owned fun r l hr _ hs now => ?_
  have hoffered : r.status = .offered := not_not.mp hs
  refine ⟨fun _ => disciplined_expire hr hoffered trivial, fun _ now => ?_⟩
  refine disciplined_saveTrip hr (.respondOffer hoffered) ⟨fun _ => ?_, fun _ => trivial⟩
  exact disciplined_completeAssignment hr rfl rfl trivial

theorem disciplined_expireOffers : Disciplined S expireOffers (fun _ => True) := by
  simp only [expireOffers, disciplined_bind, disciplined_dateNow, disciplined_issue,
    disciplined_pure]
  refine fun now => ⟨trivial, fun expired hexpired => disciplined_forEach (fun r hr => ?_) trivial⟩
  obtain ⟨hknown, hs⟩ := hexpired r hr
  exact disciplined_expire hknown hs trivial

theorem disciplined_remindDeliveries (days : ℕ) :
    Disciplined S (remindDeliveries days) (fun _ => True) := by
  simp only [remindDeliveries, disciplined_bind, disciplined_dateNow, disciplined_issue,
    disciplined_pure]
  refine fun now => ⟨trivial, fun due hdue => disciplined_forEach (fun r hr => ?_) trivial⟩
  obtain ⟨hknown, hs⟩ := hdue r hr
  simp only [disciplined_bind, disciplined_notify]
  exact disciplined_saveRequest hknown (.remindDeliveries hs) trivial

theorem disciplined_confirmDelivery {r : CargoRequest} (user : ℕ)
    (fareInput : Option TripFareInput) (hr : S.known r) (hs : r.status = .accepted) :
    Disciplined S (confirmDelivery cfg user fareInput r) (fun _ => True) := by
  simp only [confirmDelivery, disciplined_bind, disciplined_dateNow, disciplined_notify,
    disciplined_pure]
  refine disciplined_fareIf fun fare => disciplined_recordDeliveredIfGiven fun now => ?_
  cases hbroker : r.forDriver.isSome && cfg.brokerAccess with
  | false => exact disciplined_saveRequest hr (.deliver hs hbroker) trivial
  | true =>
      simp only [settleIf, if_true, settleBroker, disciplined_bind, disciplined_pure]
      refine disciplined_getPolicy fun percent => ?_
      exact disciplined_saveRequest hr (.deliverBroker hs hbroker) trivial

theorem disciplined_deliver (broker : Bool) (user id : ℕ) (fareInput : Option TripFareInput) :
    Disciplined S (deliver cfg broker user id fareInput) (fun _ => True) := by
  simp only [deliver, disciplined_bind, disciplined_refuseIf]
  refine disciplined_owned fun r l hr _ hs => ?_
  have haccepted : r.status = .accepted := not_not.mp hs
  split
  · unfold reportDelivery
    split
    · trivial
    · simp only [disciplined_bind, disciplined_dateNow, disciplined_notify, disciplined_pure]
      exact fun now => disciplined_saveRequest hr (.reportDelivery haccepted) trivial
  · exact disciplined_confirmDelivery user fareInput hr haccepted

theorem disciplined_cancelTrip (company id : ℕ) :
    Disciplined S (cancelTrip company id) (fun _ => True) := by
  simp only [cancelTrip, disciplined_bind, disciplined_refuseIf, disciplined_dateNow,
    disciplined_notify, disciplined_pure]
  refine disciplined_owned fun r l hr _ hs now => ?_
  refine disciplined_saveRequest hr (.cancelTrip (not_not.mp hs)) ?_
  have hopen : Disciplined S (setStatus none company r.listingId .opened)
      (fun _ => True) := disciplined_setStatus (fun k hk => (by cases hk)) trivial
  show Disciplined S (reviveTurnedDown r r.decidedAt) _
  cases r.decidedAt with
  | none => exact hopen
  | some since =>
      simp only [reviveTurnedDown, disciplined_bind, disciplined_issue]
      refine ⟨trivial, fun others hothers => disciplined_forEach (fun x hx => ?_) hopen⟩
      obtain ⟨hknown, hrej⟩ := hothers x hx
      exact disciplined_saveRequest hknown (.revive hrej) trivial

theorem disciplined_rejectDeliveryReport (company id : ℕ) :
    Disciplined S (rejectDeliveryReport company id) (fun _ => True) := by
  simp only [rejectDeliveryReport, disciplined_bind, disciplined_refuseIf, disciplined_notify,
    disciplined_pure]
  refine disciplined_owned fun r l hr _ hs _ => ?_
  exact disciplined_saveRequest hr (.rejectDeliveryReport (not_not.mp hs)) trivial

theorem disciplined_saveAnnounced (l : CargoListing) {Q : Unit → Prop} (h : Q ()) :
    Disciplined S (saveAnnounced l) Q := by
  simp only [saveAnnounced, disciplined_bind, disciplined_dateNow, disciplined_issue,
    disciplined_pure]
  exact fun now => ⟨⟨rfl, rfl⟩, fun _ _ => h⟩

theorem disciplined_announceNow (recipients : Bool) (user lid : ℕ) :
    Disciplined S (announceNow recipients user lid) (fun _ => True) := by
  simp only [announceNow, disciplined_bind, disciplined_issue, disciplined_orThrow,
    disciplined_refuseIf]
  exact ⟨trivial, fun _ _ l _ _ _ => disciplined_saveAnnounced l trivial⟩

theorem disciplined_unanswered {α : Type} {p : Trip α}
    (h : Disciplined S p (fun _ => True)) :
    Disciplined S (unanswered p) (fun _ => True) := by
  simp only [unanswered, disciplined_bind, disciplined_pure]
  exact h

/-- **Every operation saves only what it may**, whatever it is answered. -/
theorem disciplined_programOf (hcreates : S.creates) (op : TripOp) :
    Disciplined S (programOf cfg op) (fun _ => True) := by
  cases op with
  | request answers driver lid source =>
      exact disciplined_unanswered (disciplined_request hcreates answers driver lid source)
  | cancel broker driver id => exact disciplined_unanswered (disciplined_cancel broker driver id)
  | decide broker company id accept deal =>
      exact disciplined_unanswered (disciplined_decide broker company id accept deal)
  | offer isDriver company lid driver fare =>
      exact disciplined_unanswered (disciplined_offer hcreates isDriver company lid driver fare)
  | respondOffer driver id accept =>
      exact disciplined_unanswered (disciplined_respondOffer driver id accept)
  | expireOffers => exact disciplined_unanswered disciplined_expireOffers
  | remindDeliveries days => exact disciplined_unanswered (disciplined_remindDeliveries days)
  | deliver broker user id fare =>
      exact disciplined_unanswered (disciplined_deliver broker user id fare)
  | cancelTrip company id => exact disciplined_unanswered (disciplined_cancelTrip company id)
  | rejectDeliveryReport company id =>
      exact disciplined_unanswered (disciplined_rejectDeliveryReport company id)
  | setStatus user lid status => exact disciplined_setStatus (fun k hk => (by cases hk)) trivial
  | announceNow recipients user lid => exact disciplined_announceNow recipients user lid

end Rules

/-! ### What a step does to a request -/

variable {cfg : Services} {s : Store} {w : Writer} {r e : CargoRequest}

theorem Writes.id (h : Writes cfg w r e) : e.id = r.id := by
  cases h <;> rfl

theorem Writes.listingId (h : Writes cfg w r e) : e.listingId = r.listingId := by
  cases h <;> rfl

/-- A row read on its trip stays on it, is delivered, called off, or handed over anew. -/
theorem Writes.of_accepted (h : Writes cfg w r e) (hs : r.status = .accepted) :
    w = .offer ∨ e.status = .accepted ∨ (∃ fare, w = .deliver fare ∧ e.status = .delivered) ∨
      (w = .cancelTrip ∧ e.status = .tripCancelled) := by
  cases h with
  | offer => exact .inl rfl
  | remindDeliveries _ => exact .inr (.inl hs)
  | reportDelivery _ => exact .inr (.inl hs)
  | rejectDeliveryReport _ => exact .inr (.inl hs)
  | deliver _ _ => exact .inr (.inr (.inl ⟨_, rfl, rfl⟩))
  | deliverBroker _ _ => exact .inr (.inr (.inl ⟨_, rfl, rfl⟩))
  | cancelTrip _ => exact .inr (.inr (.inr ⟨rfl, rfl⟩))
  | request hw => simp [waitsOrRuns, hs] at hw
  | _ => simp_all

/-- A row read as delivered is saved by `request` and `offer` only. -/
theorem Writes.of_delivered (h : Writes cfg w r e) (hs : r.status = .delivered) :
    w = .request ∨ w = .offer := by
  cases h with
  | request hw => exact .inl rfl
  | offer => exact .inr rfl
  | _ => simp_all

/-- One command leaves what is stored under an id as it is, saves it, or creates it. -/
theorem exec_cell (c : TripCmd) (s : Store) (id : ℕ) :
    (exec c s).2.requests.get id = s.requests.get id ∨
      (∃ w read e, c = .saveRequest w read e ∧ e.id = id ∧ s.tripIndexRefuses e = false ∧
        (exec c s).2.requests.get id = some (e.stamped (s.requests.get id) s.clock)) ∨
      ∃ w e, c = .insertRequest w e ∧ id = s.requests.fresh ∧
        (exec c s).2.requests.get id = some (e.inserted id s.clock) := by
  cases c with
  | saveRequest w read e =>
      simp only [exec, Tables.saveRequest]
      split
      · exact .inl rfl
      · rename_i hfree
        show (s.requests.put _).get id = _ ∨ _
        by_cases hid : id = e.id
        · subst hid
          refine .inr (.inl ⟨w, read, e, rfl, rfl, Bool.eq_false_of_not_eq_true hfree, ?_⟩)
          exact Table.get_put_self _ (e.stamped (s.requests.get e.id) s.clock)
        · refine .inl (Table.get_put_of_ne ?_)
          exact hid
  | insertRequest w e =>
      simp only [exec, Tables.insertRequest]
      split
      · exact .inl rfl
      · show (s.requests.put _).get id = _ ∨ _
        by_cases hid : id = s.requests.fresh
        · subst hid
          exact .inr (.inr ⟨w, e, rfl, rfl, Table.get_put_self _ (e.inserted _ s.clock)⟩)
        · refine .inl (Table.get_put_of_ne ?_)
          exact hid
  | changeStatus trip lid status now =>
      simp only [exec, Tables.changeStatus]
      split
      · exact .inl rfl
      · split <;> exact .inl rfl
  | insertListing e =>
      simp only [exec, Tables.insertListing]
      split <;> exact .inl rfl
  | saveFare isNew row =>
      simp only [exec, Tables.saveFare]
      split <;> exact .inl rfl
  | _ => exact .inl rfl

/-- One command leaves a row as it is, or saves it. -/
theorem exec_row (c : TripCmd) {id : ℕ} (hr : s.requests.get id = some r) :
    (exec c s).2.requests.get id = some r ∨
      ∃ w read e, c = .saveRequest w read e ∧ e.id = id ∧
        (exec c s).2.requests.get id = some (e.stamped (some r) s.clock) := by
  rcases exec_cell c s id with hkeep | ⟨w, read, e, hc, hid, _, hsaved⟩ | ⟨_, _, _, rfl, _⟩
  · exact .inl (hkeep.trans hr)
  · rw [hr] at hsaved
    exact .inr ⟨w, read, e, hc, hid, hsaved⟩
  · rw [Table.get_fresh] at hr
    cases hr

/-- A command of the discipline keeps what is known of the rows. -/
theorem known_exec {S : Scope cfg} {c : TripCmd} (hc : Issues S c)
    (h : ∀ r, Has s.toTables r → S.known r) : ∀ r, Has (exec c s).2.toTables r → S.known r := by
  intro r hr
  rcases exec_cell c s r.id with hkeep | ⟨w, read, e, rfl, _, _, hsaved⟩ | ⟨w, e, rfl, _, hnew⟩
  · exact h r (hkeep.symm.trans hr)
  · rw [← Option.some.inj (hsaved.symm.trans hr)]
    exact S.saved hc.1 hc.2 _ _
  · rw [← Option.some.inj (hnew.symm.trans hr)]
    exact S.inserted hc.1 _ _ _

/-- The calls in a run of the services are disciplined. -/
theorem disciplined_run {S : Scope cfg} {Call : Type} {program : Call → Trip Unit}
    {Ok : List (Event Resp) → Conf Resp ServiceError Store → Event Resp → Prop} {s₀ : Store}
    {tr : List (Event Resp)} {b : Conf Resp ServiceError Store}
    (hprogram : ∀ call, Disciplined S (program call) (fun _ => True))
    (hrows : ∀ r, Has s₀.toTables r → S.known r)
    (h : (serviceMachine program).Run Ok (.start s₀) tr b) :
    (∀ r, Has b.store.toTables r → S.known r) ∧
      ∀ p ∈ b.pool, Disciplined S p (fun _ => True) := by
  refine Machine.Run.within (fun s => ∀ r, Has s.toTables r → S.known r) ?_ ?_ ?_ hrows
    (by simp [Conf.start]) h
  · intro call s p s' hinv hb
    obtain ⟨rfl, rfl⟩ := Prod.mk.inj (Option.some.inj hb)
    exact ⟨hinv, hprogram call⟩
  · intro passed s s' hinv ho
    obtain rfl := Option.some.inj ho
    exact hinv
  · intro choice c s r s' hinv hc hx
    have hrun : exec c s = (r, s') := Option.some.inj hx
    have hans := answers_exec hinv c
    have hkeep := known_exec hc hinv
    rw [hrun] at hans hkeep
    exact ⟨hkeep, hans⟩

/-! ### No lost trip -/

/-- The save of a request at an event: who makes it, the row its call had read, the entity. -/
def requestSave : Event Resp → Option (Writer × CargoRequest × CargoRequest)
  | .act _ (.saveRequest w read e) _ => some (w, read, e)
  | _ => none

/-- A save that hits a running or delivered trip was made by a call that had read it so, and is not
a new request or a new offer. -/
def ReadsCurrent (_ : List (Event Resp)) (b : Conf Resp ServiceError Store) (e : Event Resp) :
    Prop :=
  ∀ x ∈ requestSave e, ∀ r ∈ b.store.requests.get x.2.2.id,
    r.onTrip = true → x.2.1.status = r.status ∧ x.1 ≠ .request ∧ x.1 ≠ .offer

instance (tr : List (Event Resp)) (b : Conf Resp ServiceError Store) (e : Event Resp) :
    Decidable (ReadsCurrent tr b e) :=
  inferInstanceAs (Decidable (∀ x ∈ requestSave e, ∀ r ∈ b.store.requests.get x.2.2.id,
    r.onTrip = true → x.2.1.status = r.status ∧ x.1 ≠ .request ∧ x.1 ≠ .offer))

/-- The event ends a trip in this status: the company's delivery, or the trip called off. -/
def EndsTrip : Event Resp → CargoRequestStatus → Prop
  | .act _ (.saveRequest (.deliver _) _ _) _, .delivered => True
  | .act _ (.saveRequest .cancelTrip _ _) _, .tripCancelled => True
  | _, _ => False

/-- A row on its trip is on it after the step, or the step ended it. -/
def TripKept (b c : Conf Resp ServiceError Store) (e : Event Resp) : Prop :=
  ∀ id r, b.store.requests.get id = some r →
    (r.status = .accepted → ∃ r', c.store.requests.get id = some r' ∧
      (r'.status = .accepted ∨ EndsTrip e r'.status)) ∧
    (r.status = .delivered → ∃ r', c.store.requests.get id = some r' ∧ r'.status = .delivered)

/-- **No trip is lost under interleaving**, in every run in which no save hits a running or
delivered trip that its call had read in another state. -/
theorem no_lost_trip (cfg : Services) {s₀ : Store} {tr : List (Event Resp)}
    {b c : Conf Resp ServiceError Store} {l : (serviceMachine (programOf cfg)).Label}
    {e : Event Resp} (h : (serviceMachine (programOf cfg)).Run ReadsCurrent (.start s₀) tr b)
    (hs : (serviceMachine (programOf cfg)).step b l = some (e, c)) (hok : ReadsCurrent tr b e) :
    TripKept b c e := by
  intro id r hr
  obtain ⟨_, hin⟩ := disciplined_run (fun op => disciplined_programOf (S := .any cfg) trivial op)
    (fun _ _ => trivial) h
  have hsame : c.store.requests.get id = some r →
      (r.status = .accepted → ∃ r', c.store.requests.get id = some r' ∧
        (r'.status = .accepted ∨ EndsTrip e r'.status)) ∧
      (r.status = .delivered →
        ∃ r', c.store.requests.get id = some r' ∧ r'.status = .delivered) :=
    fun hc => ⟨fun ha => ⟨r, hc, .inl ha⟩, fun hd => ⟨r, hc, hd⟩⟩
  rcases serviceStep_cases hs with ⟨_, _, rfl⟩ | ⟨_, _, rfl⟩ | ⟨pid, cmd, k, hpool, rfl, rfl⟩
  · exact hsame hr
  · exact hsame hr
  · have hpre := Machine.pre_of_within hin hpool
    rcases exec_row cmd hr with hkeep | ⟨w, read, e, rfl, rfl, hsaved⟩
    · exact hsame hkeep
    · obtain ⟨_, hw⟩ := hpre
      have hcur := hok (w, read, e) rfl r hr
      refine ⟨fun ha => ⟨_, hsaved, ?_⟩, fun hd => ?_⟩
      · obtain ⟨hread, _, hoffer⟩ := hcur (by simp [CargoRequest.onTrip, ha])
        rcases hw.of_accepted (hread.trans ha) with ho | ha' | ⟨fare, rfl, hd⟩ | ⟨rfl, hc⟩
        · exact absurd ho hoffer
        · exact .inl ha'
        · exact .inr (by rw [show (e.stamped (some r) b.store.clock).status = _ from hd]; trivial)
        · exact .inr (by rw [show (e.stamped (some r) b.store.clock).status = _ from hc]; trivial)
      · obtain ⟨hread, hrequest, hoffer⟩ := hcur (by simp [CargoRequest.onTrip, hd])
        rcases hw.of_delivered (hread.trans hd) with hreq | ho
        · exact absurd hreq hrequest
        · exact absurd ho hoffer

/-- A call starts and takes its first steps. -/
def begins {Call : Type} (program : Call → Trip Unit) (pid : ℕ) (call : Call) (steps : ℕ) :
    List (serviceMachine program).Label := .start call :: List.replicate steps (.act pid ())

/-- Stepwise: a driver's request, its acceptance, and the first two steps of calling it off. -/
def calledOffSchedule : List (serviceMachine (programOf ⟨false, false⟩)).Label :=
  [begins _ 0 (.request driverAnswers 7 1 none) 7,
    begins _ 1 (.decide false 10 1 true ⟨none, none⟩) 11,
    begins _ 2 (.cancelTrip 10 1) 2].flatten

theorem no_lost_trip_calledOff :
    ∃ tr b e c, (serviceMachine (programOf ⟨false, false⟩)).Run ReadsCurrent (.start oneLoad) tr b ∧
      (serviceMachine (programOf ⟨false, false⟩)).step b (.act 2 ()) = some (e, c) ∧
      (b.store.requests.get 1).map (·.status) = some .accepted ∧
      (c.store.requests.get 1).map (·.status) = some .tripCancelled ∧ TripKept b c e := by
  have hplay : ((serviceMachine (programOf ⟨false, false⟩)).play ReadsCurrent [] (.start oneLoad)
      calledOffSchedule).any (fun x =>
        ((serviceMachine (programOf ⟨false, false⟩)).step x.2 (.act 2 ())).any fun y =>
          ReadsCurrent x.1 x.2 y.1 ∧ (x.2.store.requests.get 1).map (·.status) = some .accepted ∧
          (y.2.store.requests.get 1).map (·.status) = some .tripCancelled) = true := by
    decide
  simp only [Option.any_eq_true, decide_eq_true_eq] at hplay
  obtain ⟨⟨tr, b⟩, hp, ⟨e, c⟩, hs, hok, hb, hc⟩ := hplay
  have hrun := Machine.play_run .nil hp
  exact ⟨tr, b, e, c, hrun, hs, hb, hc, no_lost_trip ⟨false, false⟩ hrun hs hok⟩

/-- The driver's cancellation reads the request waiting, then the company accepts it. -/
def staleCancelSchedule : List (serviceMachine (programOf ⟨false, false⟩)).Label :=
  [begins _ 0 (.request driverAnswers 7 1 none) 7, begins _ 1 (.cancel false 7 1) 1,
    begins _ 2 (.decide false 10 1 true ⟨none, none⟩) 5].flatten

/-- The cancellation's save then takes the request off its trip. -/
theorem stale_cancel_loses_trip :
    ¬∀ tr b l e c, (serviceMachine (programOf ⟨false, false⟩)).Run (fun _ _ _ => True)
        (.start oneLoad) tr b →
      (serviceMachine (programOf ⟨false, false⟩)).step b l = some (e, c) → TripKept b c e := by
  intro hclaim
  have hplay : ((serviceMachine (programOf ⟨false, false⟩)).play (fun _ _ _ => True) []
      (.start oneLoad) staleCancelSchedule).any (fun x =>
        ((serviceMachine (programOf ⟨false, false⟩)).step x.2 (.act 1 ())).any fun y =>
          (x.2.store.requests.get 1).map (·.status) = some .accepted ∧
          (y.2.store.requests.get 1).map (·.status) = some .cancelled) = true := by
    decide
  simp only [Option.any_eq_true, decide_eq_true_eq] at hplay
  obtain ⟨⟨tr, b⟩, hp, ⟨e, c⟩, hs, hb, hc⟩ := hplay
  obtain ⟨r, hr, hacc⟩ := Option.map_eq_some_iff.mp hb
  obtain ⟨r', hr', hkept⟩ := (hclaim tr b _ e c (Machine.play_run .nil hp) hs 1 r hr).1 hacc
  rw [hr', Option.map_some, Option.some.injEq] at hc
  rw [hc] at hkept
  rcases hkept with hkept | hends
  · cases hkept
  · unfold EndsTrip at hends
    split at hends <;> simp_all

end TransportBackend.TripInterleaving
