import TransportBackend.TripEffect

/-!
# Everything a trip operation can do

`Move cfg t op T T'` lists, for every operation run whole at time `t`, what it can make of the
tables: nothing, or one of the changes below together with every guard it passed.  The invariants of
a run are derived from this list and never look at a program again.

* `Sound` — what holds of the tables between operations;
* `Move` — the list;
* `move_step` — **from sound tables every operation makes one of these moves**.
-/

namespace TransportBackend.TripMoves

open TransportBackend.AtomicProgram
open TransportBackend.AtomicProgram.Prog
open TransportBackend.KeyedTable
open TransportBackend.TripFareRules
open TransportBackend.TripStore
open TransportBackend.ListingService
open TransportBackend.TripService
open TransportBackend.TripRun
open TransportBackend.TripEffect

/-! ### Sound tables -/

/-- What holds of the tables between operations, from time `now` on: a load has at most one trip and
is then taken, at most one waiting offer and none beside a trip; a trip has its start and an offer
its end. -/
structure Sound (T : Tables) (now : ℕ) : Prop where
  owner : ∀ r, Has T r →
    ∃ l, T.listings.get r.listingId = some l ∧ l.publisherUserId = r.companyUserId
  oneTrip : ∀ r r', Has T r → Has T r' → r.listingId = r'.listingId → r.onTrip = true →
    r'.onTrip = true → r.id = r'.id
  taken : ∀ r l, Has T r → r.onTrip = true → T.listings.get r.listingId = some l →
    l.status = .taken
  oneOffer : ∀ r r', Has T r → Has T r' → r.listingId = r'.listingId →
    r.activeOffer now = true → r'.activeOffer now = true → r.id = r'.id
  offerFree : ∀ r r', Has T r → Has T r' → r.listingId = r'.listingId →
    r.activeOffer now = true → r'.onTrip = false
  decided : ∀ r, Has T r → r.status = .accepted → r.decidedAt ≠ none
  timed : ∀ r, Has T r → r.status = .offered → r.offerExpiresAt ≠ none

theorem activeOffer_mono {r : CargoRequest} {now t : ℕ} (hle : now ≤ t)
    (h : r.activeOffer t = true) : r.activeOffer now = true := by
  simp only [CargoRequest.activeOffer, Bool.and_eq_true, decide_eq_true_eq] at h ⊢
  refine ⟨h.1, ?_⟩
  cases he : r.offerExpiresAt with
  | none => simp [he] at h
  | some e =>
      simp only [he, Option.any_some, decide_eq_true_eq] at h ⊢
      omega

/-- Offers only run out as time passes. -/
theorem Sound.later {T : Tables} {now t : ℕ} (h : Sound T now) (hle : now ≤ t) : Sound T t where
  owner := h.owner
  oneTrip := h.oneTrip
  taken := h.taken
  oneOffer r r' hr hr' hl ha ha' :=
    h.oneOffer r r' hr hr' hl (activeOffer_mono hle ha) (activeOffer_mono hle ha')
  offerFree r r' hr hr' hl ha := h.offerFree r r' hr hr' hl (activeOffer_mono hle ha)
  decided := h.decided
  timed := h.timed

/-- The row of a running trip meets no index when it is saved again. -/
theorem Sound.free_of_trip {T : Tables} {now : ℕ} (h : Sound T now) {r e : CargoRequest}
    (hr : Has T r) (hid : e.id = r.id) (hlid : e.listingId = r.listingId)
    (htrip : r.onTrip = true) : T.tripIndexRefuses e = false := by
  by_contra hc
  obtain ⟨_, x, hx, hxl, hne, hxt⟩ := tripIndexRefuses_iff.mp (Bool.eq_true_of_not_eq_false hc)
  exact hne ((h.oneTrip x r hx hr (hxl.trans hlid) hxt htrip).trans hid.symm)

/-! ### The moves -/

/-- The requests once `k`'s trip was called off: its row, and the requests turned down since it
started. -/
def tripCalledOff (t : ℕ) (k : CargoRequest) (since : ℕ) (r : CargoRequest) : CargoRequest :=
  takenOverRevived t k since (onlyRow t k.id (CargoRequest.calledOff t) r)

/-- The requests once `k` started its trip as `f k`: its row, and the others still waiting. -/
def tripStarted (t : ℕ) (k : CargoRequest) (f : CargoRequest → CargoRequest) (r : CargoRequest) :
    CargoRequest :=
  othersTurnedDown t k (onlyRow t k.id f r)

/-- What calling off the trip of `k` leaves, its load opened again or not. -/
structure CalledOff (t : ℕ) (k : CargoRequest) (since : ℕ) (T T' : Tables) : Prop where
  has : Has T k
  running : k.status = .accepted
  started : k.decidedAt = some since
  rows : Rewrites (tripCalledOff t k since) T T'
  listings : T'.listings = T.listings ∨
    T'.activeTrip k.listingId t = false ∧ T'.anyDelivered k.listingId = false ∧
      T'.listings = (listingsSet T k.listingId .opened t).listings
  fares : T'.fares = T.fares

/-- What an operation run whole at time `t` can make of the tables, with the guards it passed. -/
inductive Move (cfg : Services) (t : ℕ) : TripOp → Tables → Tables → Prop where
  /-- It was refused, or had nothing to do. -/
  | idle {op : TripOp} {T : Tables} : Move cfg t op T T
  | asked {answers : RequestAnswers} {d lid : ℕ} {source : Option UsageChannel} {T : Tables}
      {l : CargoListing} {old : CargoRequest} {driverFor : Option BrokerDriver}
      {border : Option String} (hl : T.listings.get lid = some l) (hopen : l.status = .opened)
      (hfree : T.activeOffers lid t = []) (hold : T.ofDriver lid d = some old)
      (hwait : waitsOrRuns old = false) (hrej : old.status ≠ .rejected)
      (hcan : old.status ≠ .tripCancelled) :
      Move cfg t (.request answers d lid source) T (saved T t (old.asked source driverFor border))
  | askedFirst {answers : RequestAnswers} {d lid : ℕ} {source : Option UsageChannel} {T : Tables}
      {l : CargoListing} {driverFor : Option BrokerDriver} {border : Option String}
      (hl : T.listings.get lid = some l) (hopen : l.status = .opened)
      (hfree : T.activeOffers lid t = []) (hnone : T.ofDriver lid d = none) :
      Move cfg t (.request answers d lid source) T
        (T.putRequest (((CargoRequest.create lid d l.publisherUserId).asked source driverFor
          border).inserted T.requests.fresh t))
  | withdrawn {broker : Bool} {r : CargoRequest} {T : Tables} (hr : Has T r)
      (hs : r.status = .pending) :
      Move cfg t (.cancel broker r.driverUserId r.id) T (saved T t r.withdrawn)
  | turnedDown {broker : Bool} {r : CargoRequest} {deal : Deal} {T : Tables} (hr : Has T r)
      (hs : r.status = .pending) :
      Move cfg t (.decide broker r.companyUserId r.id false deal) T
        (saved T t (r.decided false r.brokerPayModel t))
  | accepted {broker : Bool} {r : CargoRequest} {deal : Deal} {T T' : Tables} {l : CargoListing}
      {payModel : Option BrokerPayModel} {fare : Option TripFareValues} (hr : Has T r)
      (hs : r.status = .pending) (hl : T.listings.get r.listingId = some l)
      (hopen : l.status = .opened) (hfree : T.activeOffers r.listingId t = [])
      (hfare : FareRead cfg.fares deal.fare fare)
      (hrows : Rewrites (tripStarted t r (CargoRequest.decided true payModel t)) T T')
      (hlist : T'.listings = (listingsSet T r.listingId .taken t).listings)
      (hfares : T'.fares =
        recorded T.fares r.id .agreed (fare.map agreedValues) r.companyUserId) :
      Move cfg t (.decide broker r.companyUserId r.id true deal) T T'
  | offered {isDriver : Bool} {lid d : ℕ} {fareInput : Option TripFareInput} {T : Tables}
      {l : CargoListing} {old : CargoRequest} {fare : Option TripFareValues}
      (hl : T.listings.get lid = some l) (hopen : l.status = .opened)
      (hfree : T.activeOffers lid t = []) (hold : T.ofDriver lid d = some old)
      (hfare : FareRead (fareInput.isSome && cfg.fares) fareInput fare) :
      Move cfg t (.offer isDriver l.publisherUserId lid d fareInput) T
        (withFares (saved T t (old.handed t))
          (recorded T.fares old.id .agreed (fare.map agreedValues) l.publisherUserId))
  | offeredFirst {isDriver : Bool} {lid d : ℕ} {fareInput : Option TripFareInput} {T : Tables}
      {l : CargoListing} {fare : Option TripFareValues}
      (hl : T.listings.get lid = some l) (hopen : l.status = .opened)
      (hfree : T.activeOffers lid t = []) (hnone : T.ofDriver lid d = none)
      (hfare : FareRead (fareInput.isSome && cfg.fares) fareInput fare) :
      Move cfg t (.offer isDriver l.publisherUserId lid d fareInput) T
        (withFares
          (T.putRequest (((CargoRequest.create lid d l.publisherUserId).handed t).inserted
            T.requests.fresh t))
          (recorded T.fares T.requests.fresh .agreed (fare.map agreedValues) l.publisherUserId))
  | declined {r : CargoRequest} {T : Tables} (hr : Has T r) (hs : r.status = .offered) :
      Move cfg t (.respondOffer r.driverUserId r.id false) T (saved T t (r.answered false t))
  | offerAccepted {r : CargoRequest} {T T' : Tables} (hr : Has T r)
      (hactive : r.activeOffer t = true)
      (hrows : Rewrites (tripStarted t r (CargoRequest.answered true t)) T T')
      (hlist : T'.listings = (listingsSet T r.listingId .taken t).listings)
      (hfares : T'.fares = T.fares) :
      Move cfg t (.respondOffer r.driverUserId r.id true) T T'
  | answeredLate {r : CargoRequest} {accept : Bool} {T : Tables} (hr : Has T r)
      (hexpired : r.expiredOffer t = true) :
      Move cfg t (.respondOffer r.driverUserId r.id accept) T (saved T t r.lapsed)
  | swept {xs : List CargoRequest} {T T' : Tables}
      (hxs : ∀ x ∈ xs, Has T x ∧ x.expiredOffer t = true)
      (hrows : Rewrites (fun r => if r ∈ xs then written t CargoRequest.lapsed r else r) T T')
      (hlist : T'.listings = T.listings) (hfares : T'.fares = T.fares) :
      Move cfg t .expireOffers T T'
  | reminded {days : ℕ} {T T' : Tables}
      (hrows : Rewrites (fun r => if r ∈ T.tripsDue ((t : ℤ) - days * dayMs) then
        written t (CargoRequest.reminded t) r else r) T T')
      (hlist : T'.listings = T.listings) (hfares : T'.fares = T.fares) :
      Move cfg t (.remindDeliveries days) T T'
  | reported {broker : Bool} {r : CargoRequest} {fareInput : Option TripFareInput} {T : Tables}
      (hr : Has T r) (hs : r.status = .accepted) :
      Move cfg t (.deliver broker r.driverUserId r.id fareInput) T (saved T t (r.reported t))
  | delivered {broker : Bool} {r : CargoRequest} {fareInput : Option TripFareInput} {T : Tables}
      {fare : Option TripFareValues} {settle : CargoRequest → CargoRequest} (hr : Has T r)
      (hs : r.status = .accepted) (hfare : FareRead cfg.fares fareInput fare)
      (hreason : ∀ v ∈ fare, deliveryChanged (T.fares.get (r.id, .agreed)) v = true →
        v.changeReason ≠ none)
      (hsettle : settle = id ∨ ∃ percent, settle = (settled · fare percent)) :
      Move cfg t (.deliver broker r.companyUserId r.id fareInput) T
        (withFares (saved T t (settle (r.confirmed t)))
          (recorded T.fares r.id .delivered
            (fare.map (deliveredValues (T.fares.get (r.id, .agreed)))) r.companyUserId))
  | calledOff {r : CargoRequest} {since : ℕ} {T T' : Tables} (hcalled : CalledOff t r since T T') :
      Move cfg t (.cancelTrip r.companyUserId r.id) T T'
  | unreported {r : CargoRequest} {T : Tables} (hr : Has T r) (hs : r.status = .accepted) :
      Move cfg t (.rejectDeliveryReport r.companyUserId r.id) T (saved T t r.unreported)
  | statusSet {user lid : ℕ} {status : CargoListingStatus} {T : Tables}
      (hguard : status = .opened → T.activeTrip lid t = false ∧ T.anyDelivered lid = false) :
      Move cfg t (.setStatus user lid status) T (listingsSet T lid status t)
  | announced {recipients : Bool} {user lid : ℕ} {l : CargoListing} {T : Tables}
      (hl : T.listings.get lid = some l) :
      Move cfg t (.announceNow recipients user lid) T
        (T.putListing { l with announcedAt := some t })

/-! ### Every operation makes one of them -/

/-- However the program ends, it made a move of this operation. -/
def Moves {α : Type} (cfg : Services) (op : TripOp) (p : Trip α) (s : Store) : Prop :=
  p.After exec s (fun _ s' => Move cfg s.clock op s.toTables s'.toTables)
    (fun s' => Move cfg s.clock op s.toTables s'.toTables)

variable {cfg : Services} {s : Store}

theorem moves_cancel (broker : Bool) (driver id : ℕ) :
    Moves cfg (.cancel broker driver id) (cancel broker driver id) s := by
  simp only [Moves, cancel, after_bind, after_refuseIf, after_notify, after_pure]
  refine after_owned .idle fun r l hr hid hl hallowed => ?_
  obtain rfl : r.driverUserId = driver := by simpa using hallowed
  subst hid
  refine ⟨fun _ => .idle, fun hs => ?_⟩
  have hmove : Move cfg s.clock (.cancel broker r.driverUserId r.id) s.toTables
      (saved s.toTables s.clock r.withdrawn) := .withdrawn hr (not_not.mp hs)
  exact after_saveRequest (free_of_not_onTrip rfl)
    (after_reload (fun _ => hmove) fun _ _ => hmove)

theorem moves_request (answers : RequestAnswers) (driver lid : ℕ) (source : Option UsageChannel) :
    Moves cfg (.request answers driver lid source) (request cfg answers driver lid source) s := by
  simp only [Moves, request, after_bind, after_issue, after_orThrow, after_refuseIf, after_notify,
    after_pure, exec]
  refine after_requestFor .idle fun driverFor => ⟨fun _ => .idle, fun l hl => ⟨fun _ => .idle, fun hopen =>
    ⟨fun _ => .idle, fun _ => ⟨fun _ => .idle, fun _ => ?_⟩⟩⟩⟩
  have hopen' : l.status = .opened := not_not.mp hopen
  cases answers.border with
  | error e => exact .idle
  | ok border =>
  simp only [orBadRequest, after_pure, requestAllowed, after_bind, after_dateNow, after_issue,
    after_refuseIf, exec]
  refine ⟨fun _ => .idle, fun hwait => ⟨fun _ => .idle, fun hoffer => ⟨fun _ => .idle, fun hrej =>
    ⟨fun _ => .idle, fun hcan => ?_⟩⟩⟩⟩
  have hfree : s.activeOffers lid s.clock = [] := by
    simpa [List.isSome_head?] using hoffer
  refine after_charge .idle ?_
  cases hold : s.ofDriver lid driver with
  | none =>
      refine after_insertRequest hold rfl ?_
      have hmove : Move cfg s.clock (.request answers driver lid source) s.toTables
          (s.putRequest (((CargoRequest.create lid driver l.publisherUserId).asked source driverFor
            border).inserted s.requests.fresh s.clock)) :=
        .askedFirst hl hopen' hfree hold
      exact after_reload (fun _ => hmove) fun _ _ => hmove
  | some old =>
      have hmove : Move cfg s.clock (.request answers driver lid source) s.toTables
          (saved s.toTables s.clock (old.asked source driverFor border)) := by
        refine .asked hl hopen' hfree hold ?_ ?_ ?_
        · simpa [hold] using hwait
        · simpa [hold] using hrej
        · simpa [hold] using hcan
      simp only [saveOrInsert, after_bind, after_pure]
      exact after_saveRequest (free_of_not_onTrip rfl)
        (after_reload (fun _ => hmove) fun _ _ => hmove)

/-- The start of a trip: the row saved and the assignment completed after it. -/
theorem rewrites_tripStarted {T T' : Tables} {t : ℕ} {r : CargoRequest}
    {f : CargoRequest → CargoRequest} (hr : Has T r) (hid : ∀ r, (f r).id = r.id)
    (hlid : ∀ r, (f r).listingId = r.listingId)
    {T₁ : Tables} (h₁ : T₁.requests = (saved T t (f r)).requests)
    (h : Rewrites (othersTurnedDown t (f r)) T₁ T') : Rewrites (tripStarted t r f) T T' := by
  have hsame : othersTurnedDown t (f r) = othersTurnedDown t r := by
    funext x
    simp only [othersTurnedDown, hid, hlid]
  have hsaved : Rewrites (onlyRow t r.id f) T T₁ := by
    intro id
    rw [h₁]
    exact rewrites_saved hr (hid r) id
  have hrows := hsaved.trans h
  rwa [hsame] at hrows

theorem moves_decide (hs : Sound s.toTables s.clock) (broker : Bool) (company id : ℕ)
    (accept : Bool) (deal : Deal) :
    Moves cfg (.decide broker company id accept deal)
      (decide cfg broker company id accept deal) s := by
  simp only [Moves, TripService.decide, after_bind, after_refuseIf, after_runIf, after_dateNow, after_notify,
    after_pure]
  refine after_fareIf .idle fun fare hfare => ?_
  refine after_owned .idle fun r l hr hid hl hallowed => ?_
  obtain rfl : r.companyUserId = company := by simpa using hallowed
  subst hid
  refine ⟨fun _ => .idle, fun hpending => ?_⟩
  have hpending' : r.status = .pending := not_not.mp hpending
  have hoff : r.onTrip = false := by simp [CargoRequest.onTrip, hpending']
  refine ⟨fun _ => .idle, fun hopen => ?_⟩
  cases accept with
  | false =>
      refine ⟨fun hc => (by cases hc), fun _ => ?_⟩
      cases hfare with
      | read hkept _ => cases hkept
      | skipped _ =>
          have hmove : Move cfg s.clock (.decide broker r.companyUserId r.id false deal) s.toTables
              (saved s.toTables s.clock (r.decided false r.brokerPayModel s.clock)) :=
            .turnedDown hr hpending'
          simp only [recordAgreedIfGiven, dealPayModel, Bool.false_and, Bool.false_eq_true, if_false,
            after_pure]
          exact after_saveTrip (free_of_not_onTrip rfl) ⟨fun hc => (by cases hc), fun _ => hmove⟩
  | true =>
      have hopen' : l.status = .opened := by simpa using hopen
      refine ⟨fun _ => ?_, fun hc => (by cases hc)⟩
      rw [after_refuseReserved]
      refine ⟨fun _ => .idle, fun hfree => ?_⟩
      refine after_recordAgreedIfGiven hoff ?_
      refine after_dealPayModel fun payModel => ?_
      -- the load is open, so no other row of it is on a trip
      have hindex : ∀ F, (withFares s.toTables F).tripIndexRefuses
          (r.decided true payModel s.clock) = false := by
        intro F
        by_contra hc
        obtain ⟨_, x, hx, hxl, _, hxt⟩ := tripIndexRefuses_iff.mp (Bool.eq_true_of_not_eq_false hc)
        have hl' : s.listings.get x.listingId = some l := by rw [hxl]; exact hl
        rw [hs.taken x l hx hxt hl'] at hopen'
        cases hopen'
      obtain ⟨l', hl', hpub⟩ := hs.owner r hr
      refine after_saveTrip (hindex _) ⟨fun _ => ?_, fun hc => (by cases hc)⟩
      refine after_completeAssignment hl' hpub fun s' _ hassigned => ?_
      refine .accepted hr hpending' hl hopen' hfree hfare
        (rewrites_tripStarted hr (fun _ => rfl) (fun _ => rfl) rfl hassigned.rows) ?_
        hassigned.fares
      exact hassigned.listings.trans (listingsSet_congr (by rfl) _ _ _)

theorem moves_offer (isDriver : Bool) (company lid driver : ℕ)
    (fareInput : Option TripFareInput) :
    Moves cfg (.offer isDriver company lid driver fareInput)
      (offer cfg isDriver company lid driver fareInput) s := by
  simp only [Moves, offer, ownOpenListing, after_bind, after_issue, after_orThrow, after_refuseIf,
    after_refuseReserved, after_dateNow, after_notify, after_pure, exec]
  refine after_fareIf .idle fun fare hfare => ⟨fun _ => .idle, fun l hl => ⟨fun _ => .idle,
    fun hopen => ⟨fun _ => .idle, fun _ => ⟨fun _ => .idle, fun _ => ⟨fun _ => .idle,
      fun hfree => ?_⟩⟩⟩⟩⟩
  simp only [Option.filter_eq_some_iff, decide_eq_true_eq] at hl
  obtain ⟨hl, rfl⟩ := hl
  have hopen' : l.status = .opened := not_not.mp hopen
  have hlid : l.id = lid := Table.key_of_get hl
  subst hlid
  cases hold : s.ofDriver l.id driver with
  | none =>
      refine after_insertRequest hold rfl ?_
      refine after_reload (fun hmissing => ?_) fun full hfull => ?_
      · exact absurd hl (hmissing _ l (Table.get_put_self _ _))
      · obtain rfl : ((CargoRequest.create l.id driver l.publisherUserId).handed s.clock).inserted
            s.requests.fresh s.clock = full :=
          Option.some.inj ((Table.get_put_self _ _).symm.trans hfull)
        exact after_recordAgreedIfGiven rfl (.offeredFirst hl hopen' hfree hold hfare)
  | some old =>
      have hhas := (ofDriver_has hold).1
      simp only [saveOrInsert, after_bind, after_pure]
      refine after_saveRequest (free_of_not_onTrip rfl) ?_
      have hsaved : (saved s.toTables s.clock (old.handed s.clock)).requests.get old.id =
          some (written s.clock (CargoRequest.handed s.clock) old) := by
        rw [rewrites_saved hhas rfl old.id, hhas]
        simp [onlyRow]
      refine after_reload (fun hmissing => ?_) fun full hfull => ?_
      · have hlisting : s.listings.get old.listingId = some l := by
          rw [(ofDriver_has hold).2.1]
          exact hl
        exact absurd hlisting (hmissing (written s.clock (CargoRequest.handed s.clock) old) l hsaved)
      · obtain rfl : written s.clock (CargoRequest.handed s.clock) old = full :=
          Option.some.inj (hsaved.symm.trans hfull)
        exact after_recordAgreedIfGiven rfl (.offered hl hopen' hfree hold hfare)

theorem moves_expire {r : CargoRequest} {op : TripOp} {accept : Bool}
    (hop : op = .respondOffer r.driverUserId r.id accept) (hr : Has s.toTables r)
    (hexpired : r.expiredOffer s.clock = true) : Moves cfg op (expire r) s := by
  subst hop
  simp only [Moves, expire, after_bind, after_notify]
  exact after_saveRequest (free_of_not_onTrip rfl) (.answeredLate hr hexpired)

theorem moves_respondOffer (hs : Sound s.toTables s.clock) (driver id : ℕ) (accept : Bool) :
    Moves cfg (.respondOffer driver id accept) (respondOffer driver id accept) s := by
  simp only [Moves, respondOffer, after_bind, after_refuseIf, after_runIf, after_dateNow,
    after_notify, after_pure, after_throw]
  refine after_owned .idle fun r l hr hid hl hallowed => ?_
  obtain rfl : r.driverUserId = driver := by simpa using hallowed
  subst hid
  refine ⟨fun _ => .idle, fun hoffered => ?_⟩
  have hoffered' : r.status = .offered := not_not.mp hoffered
  obtain ⟨e, he⟩ := Option.ne_none_iff_exists'.mp (hs.timed r hr hoffered')
  refine ⟨fun hlate => moves_expire rfl hr ?_, fun htime => ?_⟩
  · simpa [CargoRequest.expiredOffer, hoffered', he] using hlate
  have hactive : r.activeOffer s.clock = true := by
    simpa [CargoRequest.activeOffer, hoffered', he] using htime
  cases accept with
  | false =>
      exact after_saveTrip (free_of_not_onTrip rfl)
        ⟨fun hc => (by cases hc), fun _ => .declined hr hoffered'⟩
  | true =>
      -- beside a waiting offer no row of the load is on a trip
      have hindex : s.tripIndexRefuses (r.answered true s.clock) = false := by
        by_contra hc
        obtain ⟨_, x, hx, hxl, _, hxt⟩ := tripIndexRefuses_iff.mp (Bool.eq_true_of_not_eq_false hc)
        rw [hs.offerFree r x hr hx hxl.symm hactive] at hxt
        cases hxt
      obtain ⟨l', hl', hpub⟩ := hs.owner r hr
      refine after_saveTrip hindex ⟨fun _ => ?_, fun hc => (by cases hc)⟩
      refine after_completeAssignment hl' hpub fun s' _ hassigned => ?_
      refine .offerAccepted hr hactive
        (rewrites_tripStarted hr (fun _ => rfl) (fun _ => rfl) rfl hassigned.rows) ?_
        hassigned.fares
      exact hassigned.listings.trans (listingsSet_congr (by rfl) _ _ _)

theorem moves_expireOffers : Moves cfg .expireOffers expireOffers s := by
  simp only [Moves, expireOffers, after_bind, after_dateNow, after_issue, after_pure, exec]
  have hmem : ∀ x ∈ (s.expiredOffers s.clock).take expiredTake,
      Has s.toTables x ∧ x.expiredOffer s.clock = true :=
    fun x hx => mem_expiredOffers.mp (List.mem_of_mem_take hx)
  refine after_saveEach CargoRequest.lapsed
    (fun r => [⟨r.companyUserId, .offerExpiredCompany, r.id, s.clock⟩,
      ⟨r.driverUserId, .offerExpiredDriver, r.id, s.clock⟩])
    (fun _ => rfl) (fun x hx => (hmem x hx).1) ?_ ?_ ?_ ?_
  · exact (nodup_filter_ids s.toTables _).sublist ((List.take_sublist _ _).map _)
  · intro x _ s' hclock hfree
    simp only [expire, after_bind, after_notify]
    refine after_saveRequest hfree ?_
    simp [savedAndTold, storeNoted, hclock]
  · intro x _ done s' _
    exact free_of_not_onTrip rfl
  · intro s' hsaved
    exact .swept hmem hsaved.rows hsaved.listings hsaved.fares

/-- The notice of a reminder. -/
def reminderNotice (t : ℕ) (r : CargoRequest) : Notice :=
  ⟨r.companyUserId, if r.deliveryReportedAt.isSome then .confirmReminder else .deliveryReminder,
    r.id, t⟩

/-- `remindDeliveries` saves and tells about exactly the trips that were due. -/
theorem after_remindDeliveries (hs : Sound s.toTables s.clock) (days : ℕ)
    {Q : ℕ → Store → Prop} {E : Store → Prop}
    (h : ∀ s', SavedEach (CargoRequest.reminded s.clock) (fun r => [reminderNotice s.clock r])
      (s.tripsDue ((s.clock : ℤ) - days * dayMs)) s s' → ∀ n, Q n s') :
    (remindDeliveries days).After exec s Q E := by
  simp only [remindDeliveries, after_bind, after_dateNow, after_issue, after_pure, exec]
  refine after_saveEach (CargoRequest.reminded s.clock) (fun r => [reminderNotice s.clock r])
    (fun _ => rfl) (fun x hx => (mem_tripsDue.mp hx).1) (nodup_filter_ids _ _) ?_ ?_
    fun s' hsaved => h s' hsaved _
  · intro x _ s' hclock hfree
    simp only [after_bind, after_notify]
    refine after_saveRequest hfree ?_
    simp [savedAndTold, storeNoted, reminderNotice, hclock]
  · intro x hx done s' hsaved
    by_contra hc
    obtain ⟨_, y, hy, hyl, hne, hyt⟩ := tripIndexRefuses_iff.mp (Bool.eq_true_of_not_eq_false hc)
    -- a reminder changes neither the load nor the status of a row, so `y` was on a trip before
    have hrow := hsaved.rows y.id
    rw [hy] at hrow
    obtain ⟨y₀, hy₀, hy₀y⟩ := Option.map_eq_some_iff.mp hrow.symm
    obtain ⟨hxhas, hxacc, _⟩ := mem_tripsDue.mp hx
    have hfields : y.id = y₀.id ∧ y.listingId = y₀.listingId ∧ y.onTrip = y₀.onTrip := by
      subst hy₀y
      split <;> exact ⟨rfl, rfl, rfl⟩
    refine hne (hfields.1.trans ?_)
    refine hs.oneTrip y₀ x (has_of_get hy₀) hxhas (hfields.2.1.symm.trans hyl)
      (hfields.2.2.symm.trans hyt) ?_
    simp [CargoRequest.onTrip, hxacc]

theorem moves_remindDeliveries (hs : Sound s.toTables s.clock) (days : ℕ) :
    Moves cfg (.remindDeliveries days) (remindDeliveries days) s :=
  after_remindDeliveries hs days fun _ hsaved _ =>
    .reminded hsaved.rows hsaved.listings hsaved.fares

theorem moves_deliver (hs : Sound s.toTables s.clock) (broker : Bool) (user requestId : ℕ)
    (fareInput : Option TripFareInput) :
    Moves cfg (.deliver broker user requestId fareInput)
      (deliver cfg broker user requestId fareInput) s := by
  simp only [Moves, deliver, after_bind, after_refuseIf]
  refine after_owned .idle fun r l hr hid hl hallowed => ?_
  subst hid
  refine ⟨fun _ => .idle, fun haccepted => ?_⟩
  have haccepted' : r.status = .accepted := not_not.mp haccepted
  have htrip : r.onTrip = true := by simp [CargoRequest.onTrip, haccepted']
  by_cases hdriver : user = r.driverUserId
  · rw [if_pos hdriver, reportDelivery]
    subst hdriver
    split
    · exact .idle
    · simp only [after_bind, after_dateNow, after_notify, after_pure]
      exact after_saveRequest (hs.free_of_trip hr rfl rfl htrip) (.reported hr haccepted')
  · rw [if_neg hdriver]
    obtain rfl : r.companyUserId = user := by
      simpa [eq_comm, hdriver] using hallowed
    simp only [confirmDelivery, after_bind, after_dateNow, after_notify, after_pure]
    refine after_fareIf .idle fun fare hfare => ?_
    refine after_recordDeliveredIfGiven .idle fun hreason => ?_
    refine after_settleIf fun e s' he hT hclock => ?_
    have hindex : ∀ e, e.id = r.id → e.listingId = r.listingId →
        s'.tripIndexRefuses e = false := by
      intro e heid helid
      rw [hT]
      exact hs.free_of_trip hr heid helid htrip
    obtain ⟨settle, hsettle, rfl⟩ : ∃ settle : CargoRequest → CargoRequest,
        (settle = id ∨ ∃ percent, settle = (settled · fare percent)) ∧
          e = settle (r.confirmed s.clock) := by
      rcases he with rfl | ⟨percent, rfl⟩
      · exact ⟨_, .inl rfl, rfl⟩
      · exact ⟨_, .inr ⟨percent, rfl⟩, rfl⟩
    have hcols : (settle (r.confirmed s.clock)).id = r.id ∧
        (settle (r.confirmed s.clock)).listingId = r.listingId := by
      rcases hsettle with rfl | ⟨percent, rfl⟩ <;> exact ⟨rfl, rfl⟩
    refine after_saveRequest (hindex _ hcols.1 hcols.2) ?_
    simp only [storeNoted_toTables, storeSaved_toTables, hT, hclock]
    exact .delivered hr haccepted' hfare hreason hsettle

/-- `cancelTrip`: refused, or the trip is called off. -/
theorem after_cancelTrip (hs : Sound s.toTables s.clock) {company id : ℕ}
    {Q : CargoRequest → Store → Prop} {E : Store → Prop} (hE : E s)
    (h : ∀ k since e s', k.id = id → k.companyUserId = company →
      CalledOff s.clock k since s.toTables s'.toTables → Q e s' ∧ E s') :
    (cancelTrip company id).After exec s Q E := by
  simp only [cancelTrip, after_bind, after_refuseIf, after_dateNow, after_notify, after_pure]
  refine after_owned hE fun r l hr hid hl hallowed => ?_
  have hcompany : r.companyUserId = company := by simpa using hallowed
  refine ⟨fun _ => hE, fun haccepted => ?_⟩
  have haccepted' : r.status = .accepted := not_not.mp haccepted
  obtain ⟨since, hsince⟩ := Option.ne_none_iff_exists'.mp (hs.decided r hr haccepted')
  refine after_saveRequest (free_of_not_onTrip rfl) ?_
  show (reviveTurnedDown r r.decidedAt).After exec _ _ _
  rw [hsince]
  refine after_reviveTurnedDown fun s' hclock hlist hfares hrows => ?_
  have hall : Rewrites (tripCalledOff s.clock r since) s.toTables s'.toTables :=
    (rewrites_saved hr rfl).trans hrows
  refine after_setStatus (h r since (r.calledOff s.clock) s' hid hcompany
    ⟨hr, haccepted', hsince, hall, .inl hlist, hfares⟩).2 fun hguard => ?_
  have hsame : s'.listings = s.listings := hlist
  have hopened : (listingsSet s'.toTables r.listingId .opened s'.clock).listings =
      (listingsSet s.toTables r.listingId .opened s.clock).listings := by
    rw [hclock]
    exact listingsSet_congr hsame _ _ _
  have hcalled : CalledOff s.clock r since s.toTables
      (listingsSet s'.toTables r.listingId .opened s'.clock) := by
    refine ⟨hr, haccepted', hsince, fun id => ?_, .inr ⟨?_, ?_, hopened⟩, ?_⟩
    · rw [listingsSet_requests]
      exact hall id
    · have hactive := (hguard rfl).1
      rw [hclock] at hactive
      rw [Tables.activeTrip, listingsSet_requests]
      exact hactive
    · rw [Tables.anyDelivered, listingsSet_requests]
      exact (hguard rfl).2
    · rw [listingsSet_fares]
      exact hfares
  exact ⟨(h r since _ (storeNoted (s'.setTables _) _ _ _) hid hcompany hcalled).1,
    (h r since (r.calledOff s.clock) (s'.setTables _) hid hcompany hcalled).2⟩

theorem moves_cancelTrip (hs : Sound s.toTables s.clock) (company id : ℕ) :
    Moves cfg (.cancelTrip company id) (cancelTrip company id) s := by
  refine after_cancelTrip hs .idle ?_
  rintro k since e s' rfl rfl hcalled
  have hmove : Move cfg s.clock (.cancelTrip k.companyUserId k.id) s.toTables s'.toTables :=
    .calledOff hcalled
  exact ⟨hmove, hmove⟩

theorem moves_rejectDeliveryReport (hs : Sound s.toTables s.clock) (company id : ℕ) :
    Moves cfg (.rejectDeliveryReport company id) (rejectDeliveryReport company id) s := by
  simp only [Moves, rejectDeliveryReport, after_bind, after_refuseIf, after_notify, after_pure]
  refine after_owned .idle fun r l hr hid hl hallowed => ?_
  obtain rfl : r.companyUserId = company := by simpa using hallowed
  subst hid
  refine ⟨fun _ => .idle, fun haccepted => ⟨fun _ => .idle, fun _ => ?_⟩⟩
  have haccepted' : r.status = .accepted := not_not.mp haccepted
  have htrip : r.onTrip = true := by simp [CargoRequest.onTrip, haccepted']
  exact after_saveRequest (hs.free_of_trip hr rfl rfl htrip) (.unreported hr haccepted')

theorem moves_announceNow (recipients : Bool) (user lid : ℕ) :
    Moves cfg (.announceNow recipients user lid) (announceNow recipients user lid) s := by
  simp only [Moves, announceNow, saveAnnounced, after_bind, after_issue, after_orThrow,
    after_refuseIf, after_dateNow, after_pure, exec]
  refine ⟨fun _ => .idle, fun l hl => ⟨fun _ => .idle, fun _ => ⟨fun _ => .idle, fun _ => ?_⟩⟩⟩
  simp only [Option.filter_eq_some_iff] at hl
  exact .announced hl.1

theorem after_unanswered {α : Type} {p : Trip α} {Q : Unit → Store → Prop} {E : Store → Prop} :
    (unanswered p).After exec s Q E ↔ p.After exec s (fun _ s' => Q () s') E := by
  simp [unanswered]

/-- **From sound tables every operation makes one of the moves.** -/
theorem move_step (cfg : Services) {s : Store} {t : ℕ} (hs : Sound s.toTables t) (op : TripOp) :
    Move cfg t op s.toTables (step cfg t op s).2.toTables := by
  have hs' : Sound (atTime t s).toTables (atTime t s).clock := hs
  have hmoves : Moves cfg op (programOf cfg op) (atTime t s) := by
    cases op with
    | request answers driver lid source =>
        exact after_unanswered.mpr (moves_request answers driver lid source)
    | cancel broker driver id => exact after_unanswered.mpr (moves_cancel broker driver id)
    | decide broker company id accept deal =>
        exact after_unanswered.mpr (moves_decide hs' broker company id accept deal)
    | offer isDriver company lid driver fare =>
        exact after_unanswered.mpr (moves_offer isDriver company lid driver fare)
    | respondOffer driver id accept =>
        exact after_unanswered.mpr (moves_respondOffer hs' driver id accept)
    | expireOffers => exact after_unanswered.mpr moves_expireOffers
    | remindDeliveries days => exact after_unanswered.mpr (moves_remindDeliveries hs' days)
    | deliver broker user id fare => exact after_unanswered.mpr (moves_deliver hs' broker user id fare)
    | cancelTrip company id => exact after_unanswered.mpr (moves_cancelTrip hs' company id)
    | rejectDeliveryReport company id =>
        exact after_unanswered.mpr (moves_rejectDeliveryReport hs' company id)
    | setStatus user lid status =>
        exact after_setStatus .idle fun hguard => ⟨.statusSet hguard, .statusSet hguard⟩
    | announceNow recipients user lid => exact moves_announceNow recipients user lid
  exact hmoves.store

end TransportBackend.TripMoves
