import TransportBackend.TripEffect

/-!
# The percent in force

The commission percent is a setting that the service reads through a copy it keeps for a while.  No
operation of the trip service changes the setting, and none keeps another percent than the one it
read, so between two changes by the admin every delivery is settled at the same percent.

* `InForce` — the setting, and the copy if there is one, is this percent;
* `steady_programOf` — what every operation issues leaves it in force;
* `step_inForce`, `after_setPolicy` — an operation keeps it, the admin's change replaces it;
* `after_getPolicy_inForce` — **what `getPolicy` answers is the percent in force**.
-/

namespace TransportBackend.TripPolicy

open TransportBackend.AtomicProgram
open TransportBackend.AtomicProgram.Prog
open TransportBackend.TripFareRules
open TransportBackend.TripStore
open TransportBackend.ListingService
open TransportBackend.TripService
open TransportBackend.TripRun
open TransportBackend.TripEffect

/-- The setting and the copy of it are this percent. -/
structure InForce (percent : ℕ) (s : Store) : Prop where
  setting : s.commissionPercent = percent
  copy : ∀ entry ∈ s.cached, entry.1 = percent

/-- A command that leaves this percent in force. -/
def Steady (percent : ℕ) : TripCmd → Prop
  | .saveSetting _ => False
  | .writePolicyCache entry => ∀ x ∈ entry, x.1 = percent
  | _ => True

/-- A command that reads the percent or keeps it. -/
def ReadsPolicy (percent : ℕ) : TripCmd → Prop
  | .now => True
  | .readPolicyCache => True
  | .readSetting => True
  | .writePolicyCache entry => ∀ x ∈ entry, x.1 = percent
  | _ => False

/-- What is answered while it is in force. -/
def SteadyAnswer (percent : ℕ) : (c : TripCmd) → Resp c → Prop
  | .readPolicyCache, entry => ∀ x ∈ entry, x.1 = percent
  | .readSetting, answer => answer = percent
  | _, _ => True

variable {percent : ℕ} {cfg : Services} {s : Store}

theorem inForce_exec (c : TripCmd) (s : Store) (h : InForce percent s) (hc : Steady percent c) :
    InForce percent (exec c s).2 ∧ SteadyAnswer percent c (exec c s).1 := by
  cases c with
  | saveSetting p => exact hc.elim
  | writePolicyCache entry => exact ⟨⟨h.setting, hc⟩, trivial⟩
  | readPolicyCache => exact ⟨h, h.copy⟩
  | readSetting => exact ⟨h, h.setting⟩
  | _ => exact ⟨⟨h.setting, h.copy⟩, trivial⟩

theorem steady_of_readsPolicy (c : TripCmd) (h : ReadsPolicy percent c) : Steady percent c := by
  cases c with
  | writePolicyCache entry => exact h
  | saveSetting p => exact h
  | _ => trivial

/-! ### What the operations issue -/

section Rules

variable {α β : Type}

/-- Every command of the program leaves the percent in force. -/
def AllSteady (percent : ℕ) (p : Trip α) : Prop :=
  p.Within (Steady percent) (SteadyAnswer percent) (fun _ => True)

theorem AllSteady.bind {p : Trip α} {f : α → Trip β} (hp : AllSteady percent p)
    (hf : ∀ a, AllSteady percent (f a)) : AllSteady percent (p >>= f) :=
  (within_bind _ _).mpr (within_mono hp fun a _ => hf a)

theorem allSteady_pure (a : α) : AllSteady percent (pure a : Trip α) := trivial

theorem allSteady_throw (e : ServiceError) : AllSteady percent (.throw e : Trip α) := trivial

theorem allSteady_issue {c : TripCmd} (h : Steady percent c) : AllSteady percent (issue c) :=
  ⟨h, fun _ _ => trivial⟩

theorem allSteady_bind_issue {c : TripCmd} {f : Resp c → Trip α} (h : Steady percent c)
    (hf : ∀ r, AllSteady percent (f r)) : AllSteady percent (issue c >>= f) :=
  (allSteady_issue h).bind hf

theorem allSteady_refuseIf (p : Prop) [Decidable p] (e : ServiceError) :
    AllSteady percent (.refuseIf p e) := by
  rw [AllSteady, within_refuseIf]
  exact fun _ => trivial

theorem allSteady_orThrow (e : ServiceError) (o : Option α) : AllSteady percent (.orThrow e o) := by
  rw [AllSteady, within_orThrow]
  exact fun _ _ => trivial

theorem allSteady_forEach {body : β → Trip Unit} {xs : List β}
    (h : ∀ x ∈ xs, AllSteady percent (body x)) : AllSteady percent (.forEach body xs) :=
  within_forEach h trivial

theorem allSteady_runIf (b : Bool) {p : Trip Unit} (h : AllSteady percent p) :
    AllSteady percent (runIf b p) := by
  cases b with
  | true => exact h
  | false => trivial

theorem allSteady_dateNow : AllSteady percent dateNow := allSteady_issue trivial

theorem allSteady_notify (userId : ℕ) (key : NoticeKey) (id : ℕ) :
    AllSteady percent (notify userId key id) := allSteady_issue trivial

theorem allSteady_saveRequest (w : Writer) (read e : CargoRequest) :
    AllSteady percent (saveRequest w read e) :=
  allSteady_bind_issue trivial fun _ => allSteady_refuseIf _ _

theorem allSteady_saveTrip (w : Writer) (read e : CargoRequest) :
    AllSteady percent (saveTrip w read e) :=
  allSteady_bind_issue trivial fun _ => allSteady_refuseIf _ _

theorem allSteady_saveOrInsert (w : Writer) (existing : Option CargoRequest) (created : CargoRequest)
    (change : CargoRequest → CargoRequest) :
    AllSteady percent (saveOrInsert w existing created change) := by
  cases existing with
  | none => exact allSteady_bind_issue trivial fun _ => allSteady_orThrow _ _
  | some old => exact (allSteady_saveRequest _ _ _).bind fun _ => allSteady_pure _

theorem allSteady_reload (id : ℕ) : AllSteady percent (reload id) :=
  allSteady_bind_issue trivial fun _ => allSteady_orThrow _ _

theorem allSteady_owned (id : ℕ) (allowed : CargoRequest → Bool) :
    AllSteady percent (owned id allowed) :=
  allSteady_bind_issue trivial fun _ => allSteady_orThrow _ _

theorem allSteady_fareIf (kept : Bool) (input : Option TripFareInput) :
    AllSteady percent (fareIf kept input) := by
  unfold fareIf readFare
  cases kept with
  | false => trivial
  | true => cases readTripFare input <;> trivial

theorem allSteady_upsert (id : ℕ) (stage : TripFareStage) (v : TripFareValues) (user : ℕ) :
    AllSteady percent (upsert id stage v user) := by
  refine allSteady_bind_issue trivial fun row => ?_
  exact allSteady_bind_issue trivial fun _ => allSteady_refuseIf _ _

theorem allSteady_recordAgreedIfGiven (r : CargoRequest) (fare : Option TripFareValues) (user : ℕ) :
    AllSteady percent (recordAgreedIfGiven r fare user) := by
  cases fare with
  | none => trivial
  | some v =>
      refine (allSteady_runIf _ ?_).bind fun _ => allSteady_upsert _ _ _ _
      exact allSteady_bind_issue trivial fun _ => allSteady_refuseIf _ _

theorem allSteady_recordDeliveredIfGiven (r : CargoRequest) (fare : Option TripFareValues)
    (user : ℕ) : AllSteady percent (recordDeliveredIfGiven r fare user) := by
  cases fare with
  | none => trivial
  | some v =>
      refine allSteady_bind_issue trivial fun _ => ?_
      exact (allSteady_refuseIf _ _).bind fun _ => allSteady_upsert _ _ _ _

/-- What `getPolicy` answers is the percent in force, and it keeps no other. -/
theorem within_getPolicy :
    getPolicy.Within (ReadsPolicy percent) (SteadyAnswer percent)
      (fun answer => answer = percent) := by
  simp only [getPolicy, dateNow, issue, within_bind, within_perform]
  refine ⟨trivial, fun cached hcached => ⟨trivial, fun now _ => ?_⟩⟩
  split
  · rename_i entry hfresh
    exact hcached entry (Option.mem_filter_iff.mp hfresh).1
  · simp only [readPolicy, dateNow, issue, within_bind, within_perform, within_pure]
    refine ⟨trivial, fun answer hanswer => ⟨trivial, fun now' _ => ⟨?_, fun _ _ => hanswer⟩⟩⟩
    intro x hx
    rw [← Option.some.inj hx]
    exact hanswer

theorem allSteady_getPolicy : AllSteady percent getPolicy :=
  within_mono (within_weaken steady_of_readsPolicy within_getPolicy) fun _ _ => trivial

theorem allSteady_settleIf (broker : Bool) (r : CargoRequest) (fare : Option TripFareValues) :
    AllSteady percent (settleIf broker r fare) := by
  cases broker with
  | false => trivial
  | true => exact allSteady_getPolicy.bind fun _ => allSteady_pure _

theorem allSteady_setStatus (made : Option ℕ) (user lid : ℕ) (status : CargoListingStatus) :
    AllSteady percent (setStatus made user lid status) := by
  refine allSteady_bind_issue trivial fun found => ?_
  refine (allSteady_orThrow _ _).bind fun listing => ?_
  refine (allSteady_runIf _ ?_).bind fun _ => ?_
  · refine allSteady_dateNow.bind fun now => ?_
    exact allSteady_bind_issue trivial fun _ => allSteady_refuseIf _ _
  refine (allSteady_runIf _ ?_).bind fun _ => ?_
  · exact allSteady_bind_issue trivial fun _ => allSteady_refuseIf _ _
  refine allSteady_dateNow.bind fun now => ?_
  refine allSteady_bind_issue trivial fun changed => allSteady_runIf _ ?_
  refine allSteady_bind_issue trivial fun updated => ?_
  exact (allSteady_orThrow _ _).bind fun _ => allSteady_pure _

theorem allSteady_completeAssignment (r : CargoRequest) :
    AllSteady percent (completeAssignment r) := by
  refine (allSteady_setStatus _ _ _ _).bind fun _ => ?_
  refine allSteady_bind_issue trivial fun others => allSteady_forEach fun other _ => ?_
  exact allSteady_dateNow.bind fun now => allSteady_saveRequest _ _ _

theorem allSteady_expire (r : CargoRequest) : AllSteady percent (expire r) := by
  refine (allSteady_saveRequest _ _ _).bind fun _ => ?_
  exact (allSteady_notify _ _ _).bind fun _ => allSteady_notify _ _ _

theorem allSteady_dealPayModel (accept : Bool) (deal : Deal) (r : CargoRequest) :
    AllSteady percent (dealPayModel cfg accept deal r) := by
  unfold dealPayModel
  split
  · split
    · trivial
    · split
      · refine AllSteady.bind ?_ fun _ => allSteady_pure _
        exact allSteady_bind_issue trivial fun _ => allSteady_pure _
      · trivial
  · trivial

theorem allSteady_refuseReserved (lid : ℕ) : AllSteady percent (refuseReserved lid) := by
  refine allSteady_dateNow.bind fun now => ?_
  exact allSteady_bind_issue trivial fun _ => allSteady_refuseIf _ _

theorem allSteady_orBadRequest (x : Except String α) : AllSteady percent (orBadRequest x) := by
  cases x <;> trivial

theorem allSteady_requestFor (answers : RequestAnswers) :
    AllSteady percent (requestFor answers) := by
  unfold requestFor
  split
  · exact (allSteady_orBadRequest _).bind fun _ => allSteady_pure _
  · exact (allSteady_refuseIf _ _).bind fun _ => allSteady_pure _

theorem allSteady_requestAllowed (existing : Option CargoRequest) (lid : ℕ) :
    AllSteady percent (requestAllowed existing lid) := by
  refine (allSteady_refuseIf _ _).bind fun _ => allSteady_dateNow.bind fun now => ?_
  refine allSteady_bind_issue trivial fun offer => (allSteady_refuseIf _ _).bind fun _ => ?_
  exact (allSteady_refuseIf _ _).bind fun _ => allSteady_refuseIf _ _

theorem allSteady_charge (answers : RequestAnswers) : AllSteady percent (charge cfg answers) := by
  unfold charge
  split <;> trivial

/-! ### The operations -/

theorem allSteady_request (answers : RequestAnswers) (driver lid : ℕ) (source : Option UsageChannel) :
    AllSteady percent (request cfg answers driver lid source) := by
  refine (allSteady_requestFor _).bind fun driverFor => ?_
  refine allSteady_bind_issue trivial fun found => (allSteady_orThrow _ _).bind fun listing => ?_
  refine (allSteady_refuseIf _ _).bind fun _ => (allSteady_refuseIf _ _).bind fun _ => ?_
  refine (allSteady_refuseIf _ _).bind fun _ => (allSteady_orBadRequest _).bind fun border => ?_
  refine allSteady_bind_issue trivial fun existing => ?_
  refine (allSteady_requestAllowed _ _).bind fun _ => (allSteady_charge _).bind fun _ => ?_
  refine (allSteady_saveOrInsert _ _ _ _).bind fun saved => (allSteady_reload _).bind fun full => ?_
  exact (allSteady_notify _ _ _).bind fun _ => allSteady_pure _

theorem allSteady_cancel (broker : Bool) (driver id : ℕ) :
    AllSteady percent (cancel broker driver id) := by
  refine (allSteady_owned _ _).bind fun found => (allSteady_refuseIf _ _).bind fun _ => ?_
  refine (allSteady_saveRequest _ _ _).bind fun _ => (allSteady_reload _).bind fun full => ?_
  exact (allSteady_notify _ _ _).bind fun _ => allSteady_pure _

theorem allSteady_decide (broker : Bool) (company id : ℕ) (accept : Bool) (deal : Deal) :
    AllSteady percent (TripService.decide cfg broker company id accept deal) := by
  refine (allSteady_fareIf _ _).bind fun fare => (allSteady_owned _ _).bind fun found => ?_
  refine (allSteady_refuseIf _ _).bind fun _ => (allSteady_refuseIf _ _).bind fun _ => ?_
  refine (allSteady_runIf _ (allSteady_refuseReserved _)).bind fun _ => ?_
  refine (allSteady_recordAgreedIfGiven _ _ _).bind fun _ => ?_
  refine (allSteady_dealPayModel _ _ _).bind fun payModel => allSteady_dateNow.bind fun now => ?_
  refine (allSteady_saveTrip _ _ _).bind fun _ => (allSteady_notify _ _ _).bind fun _ => ?_
  exact (allSteady_runIf _ (allSteady_completeAssignment _)).bind fun _ => allSteady_pure _

theorem allSteady_offer (isDriver : Bool) (company lid driver : ℕ) (fareInput : Option TripFareInput) :
    AllSteady percent (offer cfg isDriver company lid driver fareInput) := by
  refine (allSteady_fareIf _ _).bind fun fare => AllSteady.bind ?_ fun listing => ?_
  · refine allSteady_bind_issue trivial fun found => (allSteady_orThrow _ _).bind fun _ => ?_
    exact (allSteady_refuseIf _ _).bind fun _ => allSteady_pure _
  refine (allSteady_refuseIf _ _).bind fun _ => (allSteady_refuseIf _ _).bind fun _ => ?_
  refine (allSteady_refuseReserved _).bind fun _ => allSteady_bind_issue trivial fun existing => ?_
  refine allSteady_dateNow.bind fun now => (allSteady_saveOrInsert _ _ _ _).bind fun saved => ?_
  refine (allSteady_reload _).bind fun full => (allSteady_recordAgreedIfGiven _ _ _).bind fun _ => ?_
  exact (allSteady_notify _ _ _).bind fun _ => allSteady_pure _

theorem allSteady_respondOffer (driver id : ℕ) (accept : Bool) :
    AllSteady percent (respondOffer driver id accept) := by
  refine (allSteady_owned _ _).bind fun found => (allSteady_refuseIf _ _).bind fun _ => ?_
  refine allSteady_dateNow.bind fun now => (allSteady_runIf _ ?_).bind fun _ => ?_
  · exact (allSteady_expire _).bind fun _ => allSteady_throw _
  refine allSteady_dateNow.bind fun now' => (allSteady_saveTrip _ _ _).bind fun _ => ?_
  refine (allSteady_runIf _ (allSteady_completeAssignment _)).bind fun _ => ?_
  exact (allSteady_notify _ _ _).bind fun _ => allSteady_pure _

theorem allSteady_expireOffers : AllSteady percent expireOffers := by
  refine allSteady_dateNow.bind fun now => allSteady_bind_issue trivial fun expired => ?_
  exact (allSteady_forEach fun r _ => allSteady_expire r).bind fun _ => allSteady_pure _

theorem allSteady_remindDeliveries (days : ℕ) : AllSteady percent (remindDeliveries days) := by
  refine allSteady_dateNow.bind fun now => allSteady_bind_issue trivial fun due => ?_
  refine (allSteady_forEach fun r _ => ?_).bind fun _ => allSteady_pure _
  exact (allSteady_saveRequest _ _ _).bind fun _ => allSteady_notify _ _ _

theorem allSteady_deliver (broker : Bool) (user id : ℕ) (fareInput : Option TripFareInput) :
    AllSteady percent (deliver cfg broker user id fareInput) := by
  refine (allSteady_owned _ _).bind fun found => (allSteady_refuseIf _ _).bind fun _ => ?_
  split
  · unfold reportDelivery
    split
    · trivial
    · refine allSteady_dateNow.bind fun now => (allSteady_saveRequest _ _ _).bind fun _ => ?_
      exact (allSteady_notify _ _ _).bind fun _ => allSteady_pure _
  · refine (allSteady_fareIf _ _).bind fun fare => ?_
    refine (allSteady_recordDeliveredIfGiven _ _ _).bind fun _ => allSteady_dateNow.bind fun now => ?_
    refine (allSteady_settleIf _ _ _).bind fun entity => (allSteady_saveRequest _ _ _).bind fun _ => ?_
    exact (allSteady_notify _ _ _).bind fun _ => allSteady_pure _

theorem allSteady_cancelTrip (company id : ℕ) : AllSteady percent (cancelTrip company id) := by
  refine (allSteady_owned _ _).bind fun found => (allSteady_refuseIf _ _).bind fun _ => ?_
  refine allSteady_dateNow.bind fun now => (allSteady_saveRequest _ _ _).bind fun _ => ?_
  refine AllSteady.bind ?_ fun _ => (allSteady_setStatus _ _ _ _).bind fun _ => ?_
  · unfold reviveTurnedDown
    split
    · trivial
    · exact allSteady_bind_issue trivial fun others =>
        allSteady_forEach fun _ _ => allSteady_saveRequest _ _ _
  · exact (allSteady_notify _ _ _).bind fun _ => allSteady_pure _

theorem allSteady_rejectDeliveryReport (company id : ℕ) :
    AllSteady percent (rejectDeliveryReport company id) := by
  refine (allSteady_owned _ _).bind fun found => (allSteady_refuseIf _ _).bind fun _ => ?_
  refine (allSteady_refuseIf _ _).bind fun _ => (allSteady_saveRequest _ _ _).bind fun _ => ?_
  exact (allSteady_notify _ _ _).bind fun _ => allSteady_pure _

theorem allSteady_announceNow (recipients : Bool) (user lid : ℕ) :
    AllSteady percent (announceNow recipients user lid) := by
  refine allSteady_bind_issue trivial fun found => (allSteady_orThrow _ _).bind fun listing => ?_
  refine (allSteady_refuseIf _ _).bind fun _ => (allSteady_refuseIf _ _).bind fun _ => ?_
  refine allSteady_dateNow.bind fun now => allSteady_bind_issue trivial fun _ => ?_
  exact allSteady_pure _

theorem AllSteady.unanswered {p : Trip α} (h : AllSteady percent p) :
    AllSteady percent (unanswered p) := h.bind fun _ => allSteady_pure _

/-- **Every operation leaves the percent in force.** -/
theorem steady_programOf (cfg : Services) (op : TripOp) : AllSteady percent (programOf cfg op) := by
  cases op with
  | request answers driver lid source => exact (allSteady_request answers driver lid source).unanswered
  | cancel broker driver id => exact (allSteady_cancel broker driver id).unanswered
  | decide broker company id accept deal =>
      exact (allSteady_decide broker company id accept deal).unanswered
  | offer isDriver company lid driver fare =>
      exact (allSteady_offer isDriver company lid driver fare).unanswered
  | respondOffer driver id accept => exact (allSteady_respondOffer driver id accept).unanswered
  | expireOffers => exact allSteady_expireOffers.unanswered
  | remindDeliveries days => exact (allSteady_remindDeliveries days).unanswered
  | deliver broker user id fare => exact (allSteady_deliver broker user id fare).unanswered
  | cancelTrip company id => exact (allSteady_cancelTrip company id).unanswered
  | rejectDeliveryReport company id => exact (allSteady_rejectDeliveryReport company id).unanswered
  | setStatus user lid status => exact allSteady_setStatus none user lid status
  | announceNow recipients user lid => exact allSteady_announceNow recipients user lid

end Rules

/-! ### Run alone -/

theorem run_inForce {α : Type} {p : Trip α} (hp : AllSteady percent p) (h : InForce percent s) :
    InForce percent (p.run exec s).2 := by
  have hafter := after_of_within inForce_exec hp h
  unfold After at hafter
  generalize p.run exec s = out at hafter ⊢
  obtain ⟨_ | _, s'⟩ := out
  · exact hafter
  · exact hafter.2

/-- An operation keeps the percent in force. -/
theorem step_inForce (cfg : Services) (t : ℕ) (op : TripOp) (h : InForce percent s) :
    InForce percent (step cfg t op s).2 :=
  run_inForce (s := atTime t s) (steady_programOf cfg op) ⟨h.setting, h.copy⟩

/-- **What `getPolicy` answers is the percent in force.** -/
theorem after_getPolicy_inForce (h : InForce percent s) {Q : ℕ → Store → Prop} {E : Store → Prop}
    (hQ : ∀ s', s'.toTables = s.toTables → s'.clock = s.clock → InForce percent s' →
      Q percent s') : getPolicy.After exec s Q E := by
  simp only [getPolicy, after_bind, after_issue, after_dateNow, exec]
  split
  · rename_i entry hfresh
    have hentry : entry.1 = percent := h.copy entry (Option.mem_filter_iff.mp hfresh).1
    have hkept := hQ s rfl rfl h
    rw [← hentry] at hkept
    exact hkept
  · simp only [readPolicy, after_bind, after_issue, after_dateNow, after_pure, exec, h.setting]
    refine hQ _ rfl rfl ⟨rfl, ?_⟩
    intro entry hentry
    rw [← Option.some.inj hentry]

/-- **The admin's change replaces it**, and nothing else. -/
theorem after_setPolicy (s : Store) (percent : ℕ) {E : Store → Prop} :
    (setPolicy percent).After exec s
      (fun answer s' => answer = percent ∧ s'.toTables = s.toTables ∧ s'.clock = s.clock ∧
        InForce percent s') E := by
  simp only [setPolicy, after_bind, after_issue, exec]
  have hforce : InForce percent { s with commissionPercent := percent, cached := none } :=
    ⟨rfl, fun _ h => absurd h.symm (Option.some_ne_none _)⟩
  exact after_getPolicy_inForce hforce fun s' hT hclock hforce' => ⟨rfl, hT, hclock, hforce'⟩

end TransportBackend.TripPolicy
