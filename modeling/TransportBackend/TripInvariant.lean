import TransportBackend.TripMoves

/-!
# The state machine of a trip

The moves of `TripMoves` seen row by row: `RowStep` lists what a move can make of one request, and
`Move.cell` says that every request takes such a step.  From the row steps the tables stay sound
over every run, whatever the order of the operations, and a delivered request never changes again.

* `Move.sound` — one operation keeps the tables sound;
* `History.sound` — **so does every run from listings without requests**;
* `trip_state_machine` — the state machine's invariant, and what delivery fixes for good.
-/

namespace TransportBackend.TripInvariant

open TransportBackend.AtomicProgram
open TransportBackend.KeyedTable
open TransportBackend.TripFareRules
open TransportBackend.TripStore
open TransportBackend.ListingService
open TransportBackend.TripService
open TransportBackend.TripRun
open TransportBackend.TripEffect
open TransportBackend.TripMoves

/-! ### Row by row -/

/-- The load is open and no driver is asked to take it. -/
def Available (t : ℕ) (T : Tables) (lid : ℕ) : Prop :=
  (∃ l, T.listings.get lid = some l ∧ l.status = .opened) ∧ T.activeOffers lid t = []

/-- The operation starts this request's trip. -/
inductive Starts (t : ℕ) (T : Tables) : TripOp → CargoRequest → Prop where
  | byCompany {broker : Bool} {deal : Deal} {r : CargoRequest} (hs : r.status = .pending)
      (havail : Available t T r.listingId) :
      Starts t T (.decide broker r.companyUserId r.id true deal) r
  | byDriver {r : CargoRequest} (hactive : r.activeOffer t = true) :
      Starts t T (.respondOffer r.driverUserId r.id true) r

/-- What an operation can make of one request. -/
inductive RowStep (t : ℕ) (T : Tables) : TripOp → CargoRequest → CargoRequest → Prop where
  | same {op : TripOp} {r : CargoRequest} : RowStep t T op r r
  | asked {answers : RequestAnswers} {source : Option UsageChannel} {r : CargoRequest}
      {driverFor : Option BrokerDriver} {border : Option String}
      (havail : Available t T r.listingId) (hwait : waitsOrRuns r = false)
      (hrej : r.status ≠ .rejected) (hcan : r.status ≠ .tripCancelled) :
      RowStep t T (.request answers r.driverUserId r.listingId source) r
        (written t (CargoRequest.asked source driverFor border) r)
  | withdrawn {broker : Bool} {r : CargoRequest} (hs : r.status = .pending) :
      RowStep t T (.cancel broker r.driverUserId r.id) r (written t CargoRequest.withdrawn r)
  | rejected {broker : Bool} {deal : Deal} {r : CargoRequest} (hs : r.status = .pending) :
      RowStep t T (.decide broker r.companyUserId r.id false deal) r
        (written t (CargoRequest.decided false r.brokerPayModel t) r)
  | accepted {broker : Bool} {deal : Deal} {r : CargoRequest} {payModel : Option BrokerPayModel}
      (hstart : Starts t T (.decide broker r.companyUserId r.id true deal) r) :
      RowStep t T (.decide broker r.companyUserId r.id true deal) r
        (written t (CargoRequest.decided true payModel t) r)
  | offerAccepted {r : CargoRequest}
      (hstart : Starts t T (.respondOffer r.driverUserId r.id true) r) :
      RowStep t T (.respondOffer r.driverUserId r.id true) r
        (written t (CargoRequest.answered true t) r)
  | turnedDown {op : TripOp} {k r : CargoRequest} (hk : Has T k) (hstart : Starts t T op k)
      (hlid : r.listingId = k.listingId) (hne : r.id ≠ k.id) (hs : r.status = .pending) :
      RowStep t T op r (written t (CargoRequest.turnedDown t) r)
  | offered {isDriver : Bool} {company : ℕ} {fareInput : Option TripFareInput} {r : CargoRequest}
      (havail : Available t T r.listingId)
      (hold : T.ofDriver r.listingId r.driverUserId = some r) :
      RowStep t T (.offer isDriver company r.listingId r.driverUserId fareInput) r
        (written t (CargoRequest.handed t) r)
  | declined {r : CargoRequest} (hs : r.status = .offered) :
      RowStep t T (.respondOffer r.driverUserId r.id false) r
        (written t (CargoRequest.answered false t) r)
  | lapsed {op : TripOp} {r : CargoRequest} (hexpired : r.expiredOffer t = true) :
      RowStep t T op r (written t CargoRequest.lapsed r)
  | reminded {days : ℕ} {r : CargoRequest} (hs : r.status = .accepted)
      (hdue : (r.remindFrom : ℤ) < t - days * dayMs) :
      RowStep t T (.remindDeliveries days) r (written t (CargoRequest.reminded t) r)
  | reported {broker : Bool} {fareInput : Option TripFareInput} {r : CargoRequest}
      (hs : r.status = .accepted) :
      RowStep t T (.deliver broker r.driverUserId r.id fareInput) r
        (written t (CargoRequest.reported t) r)
  | delivered {broker : Bool} {fareInput : Option TripFareInput} {r : CargoRequest}
      {fare : Option TripFareValues} {settle : CargoRequest → CargoRequest}
      (hs : r.status = .accepted)
      (hsettle : settle = id ∨ ∃ percent, settle = (settled · fare percent)) :
      RowStep t T (.deliver broker r.companyUserId r.id fareInput) r
        (written t (fun r => settle (r.confirmed t)) r)
  | calledOff {r : CargoRequest} (hs : r.status = .accepted) :
      RowStep t T (.cancelTrip r.companyUserId r.id) r
        (written t (CargoRequest.calledOff t) r)
  | revived {k r : CargoRequest} {since : ℕ} (hk : Has T k) (hkacc : k.status = .accepted)
      (hsince : k.decidedAt = some since) (hlid : r.listingId = k.listingId) (hne : r.id ≠ k.id)
      (hs : r.status = .rejected) (hlate : r.decidedAt.any (since ≤ ·) = true) :
      RowStep t T (.cancelTrip k.companyUserId k.id) r
        (written t CargoRequest.waitingAgain r)
  | unreported {r : CargoRequest} (hs : r.status = .accepted) :
      RowStep t T (.rejectDeliveryReport r.companyUserId r.id) r
        (written t CargoRequest.unreported r)

/-- A request an operation can create. -/
inductive NewRow (t : ℕ) (T : Tables) : TripOp → CargoRequest → Prop where
  | asked {answers : RequestAnswers} {d lid : ℕ} {source : Option UsageChannel} {l : CargoListing}
      {driverFor : Option BrokerDriver} {border : Option String}
      (hl : T.listings.get lid = some l) (havail : Available t T lid) :
      NewRow t T (.request answers d lid source)
        (((CargoRequest.create lid d l.publisherUserId).asked source driverFor border).inserted
          T.requests.fresh t)
  | offered {isDriver : Bool} {lid d : ℕ} {fareInput : Option TripFareInput} {l : CargoListing}
      (hl : T.listings.get lid = some l) (havail : Available t T lid)
      (hnone : T.ofDriver lid d = none) :
      NewRow t T (.offer isDriver l.publisherUserId lid d fareInput)
        (((CargoRequest.create lid d l.publisherUserId).handed t).inserted T.requests.fresh t)

/-- What an operation can make of what is stored under one id. -/
inductive Cell (t : ℕ) (T : Tables) (op : TripOp) :
    Option CargoRequest → Option CargoRequest → Prop where
  | absent : Cell t T op none none
  | kept {r r' : CargoRequest} (hstep : RowStep t T op r r') : Cell t T op (some r) (some r')
  | new {r' : CargoRequest} (hnew : NewRow t T op r') : Cell t T op none (some r')

theorem cells_of_rewrites {t : ℕ} {T T' : Tables} {op : TripOp}
    {g : CargoRequest → CargoRequest} (h : Rewrites g T T')
    (hg : ∀ r, Has T r → RowStep t T op r (g r)) (id : ℕ) :
    Cell t T op (T.requests.get id) (T'.requests.get id) := by
  rw [h id]
  cases hr : T.requests.get id with
  | none => exact .absent
  | some r => exact .kept (hg r (has_of_get hr))

/-- A row step of one row, the others as they are. -/
theorem onlyRow_step {t : ℕ} {T : Tables} {op : TripOp} {k : CargoRequest}
    {f : CargoRequest → CargoRequest} (hk : Has T k)
    (hstep : RowStep t T op k (written t f k)) (r : CargoRequest) (hr : Has T r) :
    RowStep t T op r (onlyRow t k.id f r) := by
  by_cases h : r.id = k.id
  · obtain rfl := hr.unique hk h
    simpa [onlyRow] using hstep
  · rw [onlyRow, if_neg h]
    exact .same

theorem cells_of_saved {t : ℕ} {T : Tables} {op : TripOp} {k : CargoRequest}
    {f : CargoRequest → CargoRequest} (hk : Has T k) (hid : (f k).id = k.id)
    (hstep : RowStep t T op k (written t f k)) (id : ℕ) :
    Cell t T op (T.requests.get id) ((saved T t (f k)).requests.get id) :=
  cells_of_rewrites (rewrites_saved hk hid) (onlyRow_step hk hstep) id

theorem cells_of_put {t : ℕ} {T : Tables} {op : TripOp} {e : CargoRequest}
    (hid : e.id = T.requests.fresh) (hnew : NewRow t T op e) (id : ℕ) :
    Cell t T op (T.requests.get id) ((T.putRequest e).requests.get id) := by
  show Cell t T op _ ((T.requests.put e).get id)
  rw [Table.get_put]
  by_cases h : id = e.id
  · subst h
    rw [if_pos rfl, hid, Table.get_fresh]
    exact .new hnew
  · rw [if_neg h]
    cases T.requests.get id with
    | none => exact .absent
    | some r => exact .kept .same

/-- What starting a trip leaves of its own row. -/
theorem tripStarted_self {f : CargoRequest → CargoRequest} (hid : ∀ r, (f r).id = r.id) (t : ℕ)
    (k : CargoRequest) : tripStarted t k f k = written t f k := by
  simp [tripStarted, othersTurnedDown, onlyRow, written_id hid]

/-- A started trip: its own row and the others still waiting. -/
theorem tripStarted_step {t : ℕ} {T : Tables} {op : TripOp} {k : CargoRequest}
    {f : CargoRequest → CargoRequest} (hk : Has T k) (hstart : Starts t T op k)
    (hid : ∀ r, (f r).id = r.id) (hstep : RowStep t T op k (written t f k)) (r : CargoRequest)
    (hr : Has T r) : RowStep t T op r (tripStarted t k f r) := by
  by_cases h : r.id = k.id
  · obtain rfl := hr.unique hk h
    rw [tripStarted_self hid]
    exact hstep
  · rw [tripStarted, onlyRow, if_neg h, othersTurnedDown]
    split
    · rename_i hc
      exact .turnedDown hk hstart hc.1 hc.2.2 hc.2.1
    · exact .same

/-- What calling a trip off leaves of its own row. -/
theorem tripCalledOff_self (t : ℕ) (k : CargoRequest) (since : ℕ) :
    tripCalledOff t k since k = written t (CargoRequest.calledOff t) k := by
  rw [tripCalledOff, onlyRow, if_pos rfl, takenOverRevived, if_neg]
  exact fun hc => hc.2.2.1 rfl

theorem tripCalledOff_step {t : ℕ} {T : Tables} {k : CargoRequest} {since : ℕ} (hk : Has T k)
    (hs : k.status = .accepted) (hsince : k.decidedAt = some since) (r : CargoRequest)
    (hr : Has T r) :
    RowStep t T (.cancelTrip k.companyUserId k.id) r (tripCalledOff t k since r) := by
  by_cases h : r.id = k.id
  · obtain rfl := hr.unique hk h
    rw [tripCalledOff_self]
    exact .calledOff hs
  · rw [tripCalledOff, onlyRow, if_neg h, takenOverRevived]
    split
    · rename_i hc
      exact .revived hk hs hsince hc.1 h hc.2.1 hc.2.2.2
    · exact .same

variable {cfg : Services} {t : ℕ} {op : TripOp} {T T' : Tables}

/-- **Every request takes a row step.** -/
theorem Move.cell (h : Move cfg t op T T') (id : ℕ) :
    Cell t T op (T.requests.get id) (T'.requests.get id) := by
  cases h with
  | idle =>
      cases T.requests.get id with
      | none => exact .absent
      | some r => exact .kept .same
  | asked hl hopen hfree hold hwait hrej hcan =>
      obtain ⟨hhas, rfl, rfl⟩ := ofDriver_has hold
      exact cells_of_saved hhas rfl (.asked ⟨⟨_, hl, hopen⟩, hfree⟩ hwait hrej hcan) id
  | askedFirst hl hopen hfree hnone =>
      exact cells_of_put rfl (.asked hl ⟨⟨_, hl, hopen⟩, hfree⟩) id
  | withdrawn hr hs => exact cells_of_saved hr rfl (.withdrawn hs) id
  | turnedDown hr hs => exact cells_of_saved hr rfl (.rejected hs) id
  | accepted hr hs hl hopen hfree hfare hrows hlist hfares =>
      have havail : Available t T _ := ⟨⟨_, hl, hopen⟩, hfree⟩
      exact cells_of_rewrites hrows (tripStarted_step hr (.byCompany hs havail) (fun _ => rfl)
        (.accepted (.byCompany hs havail))) id
  | offered hl hopen hfree hold hfare =>
      obtain ⟨hhas, rfl, rfl⟩ := ofDriver_has hold
      exact cells_of_saved hhas rfl (.offered ⟨⟨_, hl, hopen⟩, hfree⟩ hold) id
  | offeredFirst hl hopen hfree hnone hfare =>
      exact cells_of_put rfl (.offered hl ⟨⟨_, hl, hopen⟩, hfree⟩ hnone) id
  | declined hr hs => exact cells_of_saved hr rfl (.declined hs) id
  | offerAccepted hr hactive hrows hlist hfares =>
      exact cells_of_rewrites hrows (tripStarted_step hr (.byDriver hactive) (fun _ => rfl)
        (.offerAccepted (.byDriver hactive))) id
  | answeredLate hr hexpired => exact cells_of_saved hr rfl (.lapsed hexpired) id
  | swept hxs hrows hlist hfares =>
      refine cells_of_rewrites hrows (fun r _ => ?_) id
      split
      · rename_i hmem
        exact .lapsed (hxs r hmem).2
      · exact .same
  | reminded hrows hlist hfares =>
      refine cells_of_rewrites hrows (fun r _ => ?_) id
      split
      · rename_i hmem
        obtain ⟨_, hacc, hdue⟩ := mem_tripsDue.mp hmem
        exact .reminded hacc hdue
      · exact .same
  | reported hr hs => exact cells_of_saved hr rfl (.reported hs) id
  | delivered hr hs hfare hreason hsettle =>
      refine cells_of_saved (f := fun r => _) hr ?_ (.delivered hs hsettle) id
      rcases hsettle with rfl | ⟨percent, rfl⟩ <;> rfl
  | calledOff hcalled =>
      exact cells_of_rewrites hcalled.rows
        (tripCalledOff_step hcalled.has hcalled.running hcalled.started) id
  | unreported hr hs => exact cells_of_saved hr rfl (.unreported hs) id
  | statusSet hguard =>
      rw [listingsSet_requests]
      cases T.requests.get id with
      | none => exact .absent
      | some r => exact .kept .same
  | announced hl =>
      show Cell t T _ (T.requests.get id) (T.requests.get id)
      cases T.requests.get id with
      | none => exact .absent
      | some r => exact .kept .same

/-- The row a request has after a move. -/
theorem Move.row (h : Move cfg t op T T') {r : CargoRequest} (hr : Has T r) :
    ∃ r', Has T' r' ∧ r'.id = r.id ∧ RowStep t T op r r' := by
  have hcell := Move.cell h r.id
  rw [hr] at hcell
  generalize hr' : T'.requests.get r.id = o at hcell
  cases hcell with
  | kept hstep => exact ⟨_, has_of_get hr', Table.key_of_get hr', hstep⟩

/-- The row a request had before a move, unless the move created it. -/
theorem Move.origin (h : Move cfg t op T T') {r' : CargoRequest} (hr' : Has T' r') :
    (∃ r, Has T r ∧ r.id = r'.id ∧ RowStep t T op r r') ∨ NewRow t T op r' := by
  have hcell := Move.cell h r'.id
  rw [hr'] at hcell
  generalize hr : T.requests.get r'.id = o at hcell
  cases hcell with
  | kept hstep => exact .inl ⟨_, has_of_get hr, Table.key_of_get hr, hstep⟩
  | new hnew => exact .inr hnew

/-! ### What a row step keeps -/

section RowSteps

variable {r r' : CargoRequest}

/-- The parties and the load of a request never change. -/
theorem RowStep.parties (h : RowStep t T op r r') :
    r'.listingId = r.listingId ∧ r'.companyUserId = r.companyUserId ∧
      r'.driverUserId = r.driverUserId := by
  cases h with
  | delivered hs hsettle =>
      rcases hsettle with rfl | ⟨percent, rfl⟩ <;> exact ⟨rfl, rfl, rfl⟩
  | _ => exact ⟨rfl, rfl, rfl⟩

/-- Settling a broker's share leaves the status of the delivery. -/
theorem delivered_status {settle : CargoRequest → CargoRequest} {fare : Option TripFareValues}
    (hsettle : settle = id ∨ ∃ percent, settle = (settled · fare percent)) (t : ℕ)
    (r : CargoRequest) : (written t (fun r => settle (r.confirmed t)) r).status = .delivered := by
  rcases hsettle with rfl | ⟨percent, rfl⟩ <;> rfl

theorem status_of_activeOffer {now : ℕ} (h : r.activeOffer now = true) : r.status = .offered := by
  simp only [CargoRequest.activeOffer, Bool.and_eq_true, decide_eq_true_eq] at h
  exact h.1

/-- A row on a trip was on it before, or its trip starts now. -/
theorem RowStep.onTrip (h : RowStep t T op r r') (htrip : r'.onTrip = true) :
    r.onTrip = true ∨ (Starts t T op r ∧ r'.status = .accepted) := by
  cases h with
  | same => exact .inl htrip
  | accepted hstart => exact .inr ⟨hstart, rfl⟩
  | offerAccepted hstart => exact .inr ⟨hstart, rfl⟩
  | reminded hs hdue => exact .inl (by simp [CargoRequest.onTrip, hs])
  | reported hs => exact .inl (by simp [CargoRequest.onTrip, hs])
  | delivered hs hsettle => exact .inl (by simp [CargoRequest.onTrip, hs])
  | unreported hs => exact .inl (by simp [CargoRequest.onTrip, hs])
  | _ => cases htrip

/-- A waiting offer was waiting before, or is made now. -/
theorem RowStep.activeOffer (h : RowStep t T op r r') (hactive : r'.activeOffer t = true) :
    r.activeOffer t = true ∨
      ((∃ isDriver company fareInput,
          op = .offer isDriver company r.listingId r.driverUserId fareInput) ∧
        Available t T r.listingId ∧ T.ofDriver r.listingId r.driverUserId = some r) := by
  have hoffered := status_of_activeOffer hactive
  cases h with
  | same => exact .inl hactive
  | offered havail hold => exact .inr ⟨⟨_, _, _, rfl⟩, havail, hold⟩
  | reminded hs hdue => exact absurd (hs.symm.trans hoffered) (by simp)
  | reported hs => exact absurd (hs.symm.trans hoffered) (by simp)
  | delivered hs hsettle =>
      exact absurd ((delivered_status hsettle t r).symm.trans hoffered) (by simp)
  | unreported hs => exact absurd (hs.symm.trans hoffered) (by simp)
  | _ => cases hoffered

/-- A running trip has the start it had, or starts now. -/
theorem RowStep.decidedAt (h : RowStep t T op r r') (hacc : r'.status = .accepted) :
    (r.status = .accepted ∧ r'.decidedAt = r.decidedAt) ∨
      (Starts t T op r ∧ r'.decidedAt = some t) := by
  cases h with
  | same => exact .inl ⟨hacc, rfl⟩
  | accepted hstart => exact .inr ⟨hstart, rfl⟩
  | offerAccepted hstart => exact .inr ⟨hstart, rfl⟩
  | reminded hs hdue => exact .inl ⟨hs, rfl⟩
  | reported hs => exact .inl ⟨hs, rfl⟩
  | delivered hs hsettle =>
      exact absurd ((delivered_status hsettle t r).symm.trans hacc) (by simp)
  | unreported hs => exact .inl ⟨hs, rfl⟩
  | _ => cases hacc

/-- An offered row has its end. -/
theorem RowStep.offerExpiresAt (h : RowStep t T op r r') (hoffered : r'.status = .offered)
    (hr : r.status = .offered → r.offerExpiresAt ≠ none) : r'.offerExpiresAt ≠ none := by
  cases h with
  | same => exact hr hoffered
  | offered havail hold => simp [written, CargoRequest.handed, CargoRequest.stamped]
  | reminded hs hdue => exact absurd (hs.symm.trans hoffered) (by simp)
  | reported hs => exact absurd (hs.symm.trans hoffered) (by simp)
  | delivered hs hsettle =>
      exact absurd ((delivered_status hsettle t r).symm.trans hoffered) (by simp)
  | unreported hs => exact absurd (hs.symm.trans hoffered) (by simp)
  | _ => cases hoffered

/-- A trip starts from a request that waits or is offered. -/
theorem Starts.waiting (h : Starts t T op r) : r.status = .pending ∨ r.status = .offered := by
  cases h with
  | byCompany hs havail => exact .inl hs
  | byDriver hactive => exact .inr (status_of_activeOffer hactive)

/-- An operation starts at most one trip. -/
theorem Starts.unique (h : Starts t T op r) (h' : Starts t T op r') : r.id = r'.id := by
  generalize hop : op = op' at h'
  cases h <;> cases h' <;> simp_all

/-- An open load has no trip. -/
theorem Available.noTrip {lid : ℕ} (h : Available t T lid) (hs : Sound T t) {x : CargoRequest}
    (hx : Has T x) (hlid : x.listingId = lid) : x.onTrip = false := by
  obtain ⟨⟨l, hl, hopen⟩, _⟩ := h
  by_contra hc
  rw [hs.taken x l hx (Bool.eq_true_of_not_eq_false hc) (hlid ▸ hl)] at hopen
  cases hopen

/-- A load whose trip starts has none yet. -/
theorem Starts.noTrip (h : Starts t T op r) (hs : Sound T t) (hr : Has T r) {x : CargoRequest}
    (hx : Has T x) (hlid : x.listingId = r.listingId) : x.onTrip = false := by
  cases h with
  | byCompany hpending havail => exact havail.noTrip hs hx hlid
  | byDriver hactive => exact hs.offerFree r x hr hx hlid.symm hactive

theorem Available.noOffer {lid : ℕ} (h : Available t T lid) {x : CargoRequest} (hx : Has T x)
    (hlid : x.listingId = lid) : x.activeOffer t = false := by
  by_contra hc
  have hmem : x ∈ T.activeOffers lid t :=
    mem_activeOffers.mpr ⟨hx, hlid, Bool.eq_true_of_not_eq_false hc⟩
  rw [h.2] at hmem
  cases hmem

/-- A delivered request takes no step: neither asking nor an offer reaches a load it is on. -/
theorem RowStep.delivered_same (h : RowStep t T op r r') (hs : Sound T t) (hr : Has T r)
    (hdel : r.status = .delivered) : r' = r := by
  have htrip : r.onTrip = true := by simp [CargoRequest.onTrip, hdel]
  cases h with
  | same => rfl
  | asked havail hwait hrej hcan =>
      rw [havail.noTrip hs hr rfl] at htrip
      cases htrip
  | offered havail hold =>
      rw [havail.noTrip hs hr rfl] at htrip
      cases htrip
  | accepted hstart => simp [hstart.noTrip hs hr hr rfl] at htrip
  | offerAccepted hstart => simp [hstart.noTrip hs hr hr rfl] at htrip
  | lapsed hexpired => simp [CargoRequest.expiredOffer, hdel] at hexpired
  | _ => simp_all

end RowSteps

/-! ### Loads -/

/-- What a move can make of a load's status: nothing, taken, or open with no trip left on it. -/
def ListingStep (t : ℕ) (T' : Tables) (l l' : CargoListing) : Prop :=
  l'.publisherUserId = l.publisherUserId ∧
    (l'.status = l.status ∨ l'.status = .taken ∨
      (T'.activeTrip l.id t = false ∧ T'.anyDelivered l.id = false))

theorem statusSet_step {t lid : ℕ} {status : CargoListingStatus} {T' : Tables} (l : CargoListing)
    (hguard : status = .opened → T'.activeTrip lid t = false ∧ T'.anyDelivered lid = false) :
    ListingStep t T' l (statusSet lid status t l) := by
  unfold statusSet
  split
  · rename_i hc
    refine ⟨rfl, ?_⟩
    cases status with
    | taken => exact .inr (.inl rfl)
    | opened => rw [hc.1]; exact .inr (.inr (hguard rfl))
  · exact ⟨rfl, .inl rfl⟩

/-- **Every load takes such a step.** -/
theorem Move.listing (h : Move cfg t op T T') {id : ℕ} {l : CargoListing}
    (hl : T.listings.get id = some l) :
    ∃ l', T'.listings.get id = some l' ∧ ListingStep t T' l l' := by
  have hsame : T'.listings = T.listings →
      ∃ l', T'.listings.get id = some l' ∧ ListingStep t T' l l' :=
    fun he => ⟨l, by rw [he]; exact hl, rfl, .inl rfl⟩
  have hset : ∀ lid status, T'.listings = (listingsSet T lid status t).listings →
      (status = .opened → T'.activeTrip lid t = false ∧ T'.anyDelivered lid = false) →
      ∃ l', T'.listings.get id = some l' ∧ ListingStep t T' l l' := by
    intro lid status he hguard
    refine ⟨statusSet lid status t l, ?_, statusSet_step l hguard⟩
    rw [he, listingsSet_get, hl]
    rfl
  cases h with
  | accepted hr hs hl' hopen hfree hfare hrows hlist hfares =>
      exact hset _ _ hlist (fun hc => (by cases hc))
  | offerAccepted hr hactive hrows hlist hfares => exact hset _ _ hlist (fun hc => (by cases hc))
  | swept hxs hrows hlist hfares => exact hsame hlist
  | reminded hrows hlist hfares => exact hsame hlist
  | calledOff hcalled =>
      rcases hcalled.listings with hlist | ⟨hactive, hdel, hlist⟩
      · exact hsame hlist
      · exact hset _ _ hlist fun _ => ⟨hactive, hdel⟩
  | statusSet hguard =>
      refine hset _ _ rfl fun hopen => ?_
      rw [Tables.activeTrip, Tables.anyDelivered, listingsSet_requests]
      exact hguard hopen
  | announced hl' =>
      rename_i lid l₀
      show ∃ l', (T.listings.put _).get id = some l' ∧ _
      rw [Table.get_put]
      by_cases hid : id = l₀.id
      · subst hid
        rw [Table.key_of_get hl'] at hl
        cases hl'.symm.trans hl
        exact ⟨_, if_pos rfl, rfl, .inl rfl⟩
      · exact ⟨l, by rw [if_neg hid]; exact hl, rfl, .inl rfl⟩
  | _ => exact hsame rfl

theorem taken_of_set {lid : ℕ} {l' : CargoListing}
    (h : T'.listings = (listingsSet T lid .taken t).listings)
    (hl' : T'.listings.get lid = some l') : l'.status = .taken := by
  rw [h, listingsSet_get] at hl'
  obtain ⟨l, hl, rfl⟩ := Option.map_eq_some_iff.mp hl'
  have hid : l.id = lid := Table.key_of_get hl
  unfold statusSet
  split
  · rfl
  · rename_i hc
    simpa [hid] using hc

/-- What an operation that starts the trip of `k` makes of the tables. -/
inductive TripStart (cfg : Services) (t : ℕ) (k : CargoRequest) (T T' : Tables) : TripOp → Prop where
  | byCompany {broker : Bool} {deal : Deal} {payModel : Option BrokerPayModel}
      {fare : Option TripFareValues} (hfare : FareRead cfg.fares deal.fare fare)
      (hrows : Rewrites (tripStarted t k (CargoRequest.decided true payModel t)) T T')
      (hlist : T'.listings = (listingsSet T k.listingId .taken t).listings)
      (hfares : T'.fares = recorded T.fares k.id .agreed (fare.map agreedValues) k.companyUserId) :
      TripStart cfg t k T T' (.decide broker k.companyUserId k.id true deal)
  | byDriver (hrows : Rewrites (tripStarted t k (CargoRequest.answered true t)) T T')
      (hlist : T'.listings = (listingsSet T k.listingId .taken t).listings)
      (hfares : T'.fares = T.fares) :
      TripStart cfg t k T T' (.respondOffer k.driverUserId k.id true)

/-- A trip that runs and did not run before was started by one of the two. -/
theorem Move.tripStart (h : Move cfg t op T T') {k k' : CargoRequest} (hk : Has T k)
    (hk' : Has T' k') (hid : k'.id = k.id) (hstart : Starts t T op k)
    (hoff : k.status ≠ .accepted) (hon : k'.status = .accepted) : TripStart cfg t k T T' op := by
  cases h with
  | accepted hr hs hl hopen hfree hfare hrows hlist hfares =>
      obtain rfl := hk.unique hr (hstart.unique (.byCompany hs ⟨⟨_, hl, hopen⟩, hfree⟩))
      exact .byCompany hfare hrows hlist hfares
  | offerAccepted hr hactive hrows hlist hfares =>
      obtain rfl := hk.unique hr (hstart.unique (.byDriver hactive))
      exact .byDriver hrows hlist hfares
  | idle =>
      rw [hk'.unique hk hid] at hon
      exact absurd hon hoff
  | answeredLate hr hexpired =>
      rename_i r accept
      have hkr : k.id = r.id := by
        generalize hop : TripOp.respondOffer r.driverUserId r.id accept = op at hstart
        cases hstart <;> simp_all
      obtain rfl := hk.unique hr hkr
      have hget := rewrites_saved (t := t) (f := CargoRequest.lapsed) hk rfl k.id
      rw [hk, ← hid, hk', Option.map_some] at hget
      rw [Option.some.inj hget, hid, onlyRow, if_pos rfl] at hon
      cases hon
  | turnedDown hr hs =>
      generalize hop : TripOp.decide _ _ _ false _ = op at hstart
      cases hstart <;> simp at hop
  | declined hr hs =>
      generalize hop : TripOp.respondOffer _ _ false = op at hstart
      cases hstart <;> simp at hop
  | _ => cases hstart

/-- The load of a trip that starts is taken. -/
theorem TripStart.taken {k : CargoRequest} (h : TripStart cfg t k T T' op) {l' : CargoListing}
    (hl' : T'.listings.get k.listingId = some l') : l'.status = .taken := by
  cases h with
  | byCompany hfare hrows hlist hfares => exact taken_of_set hlist hl'
  | byDriver hrows hlist hfares => exact taken_of_set hlist hl'

/-! ### Soundness -/

/-- A row on a trip comes from one that was on it, or whose trip starts now. -/
theorem Move.trip_origin (h : Move cfg t op T T') {r' : CargoRequest} (hr' : Has T' r')
    (htrip : r'.onTrip = true) :
    ∃ r, Has T r ∧ r.id = r'.id ∧ r'.listingId = r.listingId ∧
      (r.onTrip = true ∨ (Starts t T op r ∧ r'.status = .accepted)) := by
  rcases Move.origin h hr' with ⟨r, hr, hid, hstep⟩ | hnew
  · exact ⟨r, hr, hid, hstep.parties.1, hstep.onTrip htrip⟩
  · cases hnew <;> cases htrip

/-- The operation hands the load to the driver of this row. -/
structure Hands (t : ℕ) (T : Tables) (op : TripOp) (r : CargoRequest) : Prop where
  op : ∃ isDriver company fareInput,
    op = .offer isDriver company r.listingId r.driverUserId fareInput
  available : Available t T r.listingId
  id : r.id = ((T.ofDriver r.listingId r.driverUserId).map CargoRequest.id).getD T.requests.fresh

theorem Hands.unique {r r' : CargoRequest} (h : Hands t T op r) (h' : Hands t T op r') :
    r.id = r'.id := by
  obtain ⟨_, _, _, rfl⟩ := h.op
  obtain ⟨_, _, _, hop⟩ := h'.op
  simp only [TripOp.offer.injEq] at hop
  rw [h.id, h'.id, hop.2.2.1, hop.2.2.2.1]

/-- A waiting offer comes from one that was waiting, or is made now. -/
theorem Move.offer_origin (h : Move cfg t op T T') {r' : CargoRequest} (hr' : Has T' r')
    (hactive : r'.activeOffer t = true) :
    (∃ r, Has T r ∧ r.id = r'.id ∧ r'.listingId = r.listingId ∧ r.activeOffer t = true) ∨
      Hands t T op r' := by
  rcases Move.origin h hr' with ⟨r, hr, hid, hstep⟩ | hnew
  · obtain ⟨hlid, _, hdriver⟩ := hstep.parties
    rcases hstep.activeOffer hactive with hbefore | ⟨hop, havail, hold⟩
    · exact .inl ⟨r, hr, hid, hlid, hbefore⟩
    · rw [← hlid, ← hdriver] at hop hold
      rw [← hlid] at havail
      exact .inr ⟨hop, havail, by simp [hold, hid]⟩
  · cases hnew with
    | asked hl havail => cases hactive
    | offered hl havail hnone =>
        rename_i lid d _ _
        refine .inr ⟨⟨_, _, _, rfl⟩, havail, ?_⟩
        show T.requests.fresh = ((T.ofDriver lid d).map CargoRequest.id).getD T.requests.fresh
        rw [hnone]
        rfl

theorem not_onTrip_of_reopened {lid : ℕ} {r : CargoRequest} (hactive : T.activeTrip lid t = false)
    (hdel : T.anyDelivered lid = false) (hr : Has T r) (hlid : r.listingId = lid) :
    ¬r.onTrip = true := by
  intro htrip
  simp only [CargoRequest.onTrip, Bool.or_eq_true, decide_eq_true_eq] at htrip
  rcases htrip with hacc | hd
  · rw [← Bool.not_eq_true, activeTrip_iff] at hactive
    exact hactive ⟨r, hr, hlid, .inl hacc⟩
  · rw [← Bool.not_eq_true, anyDelivered_iff] at hdel
    exact hdel ⟨r, hr, hlid, hd⟩

/-- **One operation keeps the tables sound.** -/
theorem Move.sound (h : Move cfg t op T T') (hs : Sound T t) : Sound T' t where
  owner r' hr' := by
    rcases Move.origin h hr' with ⟨r, hr, _, hstep⟩ | hnew
    · obtain ⟨l, hl, hpub⟩ := hs.owner r hr
      obtain ⟨l', hl', hlstep⟩ := Move.listing h hl
      obtain ⟨hlid, hcomp, _⟩ := hstep.parties
      exact ⟨l', by rw [hlid]; exact hl', by rw [hlstep.1, hpub, hcomp]⟩
    · cases hnew with
      | asked hl havail =>
          obtain ⟨l', hl', hlstep⟩ := Move.listing h hl
          exact ⟨l', hl', hlstep.1⟩
      | offered hl havail hnone =>
          obtain ⟨l', hl', hlstep⟩ := Move.listing h hl
          exact ⟨l', hl', hlstep.1⟩
  oneTrip r₁' r₂' hr₁' hr₂' hlid ht₁ ht₂ := by
    obtain ⟨r₁, hr₁, hid₁, hlid₁, ht₁⟩ := Move.trip_origin h hr₁' ht₁
    obtain ⟨r₂, hr₂, hid₂, hlid₂, ht₂⟩ := Move.trip_origin h hr₂' ht₂
    have hsame : r₁.listingId = r₂.listingId := by rw [← hlid₁, ← hlid₂, hlid]
    rw [← hid₁, ← hid₂]
    rcases ht₁ with ht₁ | ⟨hst₁, _⟩ <;> rcases ht₂ with ht₂ | ⟨hst₂, _⟩
    · exact hs.oneTrip r₁ r₂ hr₁ hr₂ hsame ht₁ ht₂
    · rw [hst₂.noTrip hs hr₂ hr₁ hsame] at ht₁
      cases ht₁
    · rw [hst₁.noTrip hs hr₁ hr₂ hsame.symm] at ht₂
      cases ht₂
    · exact hst₁.unique hst₂
  taken r' l' hr' htrip hl' := by
    obtain ⟨r, hr, hid, hlid, ht⟩ := Move.trip_origin h hr' htrip
    rw [hlid] at hl'
    by_cases hbefore : r.onTrip = true
    · obtain ⟨l, hl, _⟩ := hs.owner r hr
      obtain ⟨l'', hl'', hstep⟩ := Move.listing h hl
      obtain rfl := Option.some.inj (hl''.symm.trans hl')
      rcases hstep.2 with hst | hst | ⟨hactive, hdel⟩
      · rw [hst]
        exact hs.taken r l hr hbefore hl
      · exact hst
      · exact absurd htrip (not_onTrip_of_reopened hactive hdel hr'
          (by rw [hlid, Table.key_of_get hl]))
    · rcases ht with ht | ⟨hstart, hacc⟩
      · exact absurd ht hbefore
      · have hoff : r.status ≠ .accepted := fun hc => hbefore (by simp [CargoRequest.onTrip, hc])
        exact (Move.tripStart h hr hr' hid.symm hstart hoff hacc).taken hl'
  oneOffer r₁' r₂' hr₁' hr₂' hlid ha₁ ha₂ := by
    rcases Move.offer_origin h hr₁' ha₁ with ⟨r₁, hr₁, hid₁, hlid₁, hb₁⟩ | hh₁ <;>
      rcases Move.offer_origin h hr₂' ha₂ with ⟨r₂, hr₂, hid₂, hlid₂, hb₂⟩ | hh₂
    · rw [← hid₁, ← hid₂]
      exact hs.oneOffer r₁ r₂ hr₁ hr₂ (by rw [← hlid₁, ← hlid₂, hlid]) hb₁ hb₂
    · rw [hh₂.available.noOffer hr₁ (by rw [← hlid₁, hlid])] at hb₁
      cases hb₁
    · rw [hh₁.available.noOffer hr₂ (by rw [← hlid₂, hlid])] at hb₂
      cases hb₂
    · exact hh₁.unique hh₂
  offerFree r₁' r₂' hr₁' hr₂' hlid ha := by
    by_contra hc
    have htrip : r₂'.onTrip = true := Bool.eq_true_of_not_eq_false hc
    obtain ⟨r₂, hr₂, hid₂, hlid₂, ht₂⟩ := Move.trip_origin h hr₂' htrip
    rcases Move.offer_origin h hr₁' ha with ⟨r₁, hr₁, hid₁, hlid₁, hb₁⟩ | hh₁
    · have hsame : r₁.listingId = r₂.listingId := by rw [← hlid₁, ← hlid₂, hlid]
      rcases ht₂ with ht₂ | ⟨hstart, _⟩
      · rw [hs.offerFree r₁ r₂ hr₁ hr₂ hsame hb₁] at ht₂
        cases ht₂
      · cases hstart with
        | byCompany hpending havail =>
            rw [havail.noOffer hr₁ hsame] at hb₁
            cases hb₁
        | byDriver hactive =>
            -- the offer accepted is the waiting one, and its row is no offer any more
            have hids := hs.oneOffer r₁ r₂ hr₁ hr₂ hsame hb₁ hactive
            obtain rfl := hr₁'.unique hr₂' (by rw [← hid₁, ← hid₂, hids])
            simp [CargoRequest.onTrip, status_of_activeOffer ha] at htrip
    · rcases ht₂ with ht₂ | ⟨hstart, _⟩
      · rw [hh₁.available.noTrip hs hr₂ (by rw [← hlid₂, hlid])] at ht₂
        cases ht₂
      · obtain ⟨_, _, _, rfl⟩ := hh₁.op
        cases hstart
  decided r' hr' hacc := by
    rcases Move.origin h hr' with ⟨r, hr, _, hstep⟩ | hnew
    · rcases hstep.decidedAt hacc with ⟨hacc', he⟩ | ⟨_, he⟩
      · rw [he]
        exact hs.decided r hr hacc'
      · simp [he]
    · cases hnew <;> cases hacc
  timed r' hr' hoffered := by
    rcases Move.origin h hr' with ⟨r, hr, _, hstep⟩ | hnew
    · exact hstep.offerExpiresAt hoffered (hs.timed r hr)
    · cases hnew with
      | asked hl havail => cases hoffered
      | offered hl havail hnone => simp [CargoRequest.inserted, CargoRequest.handed]

/-- Listings without requests are sound. -/
theorem sound_of_empty {T : Tables} (h : T.requests.rows = []) (now : ℕ) : Sound T now := by
  have hno : ∀ r, ¬Has T r := by
    intro r hr
    have := has_iff_mem.mpr hr
    rw [h] at this
    cases this
  exact ⟨fun r hr => absurd hr (hno r), fun r _ hr => absurd hr (hno r),
    fun r _ hr => absurd hr (hno r), fun r _ hr => absurd hr (hno r),
    fun r _ hr => absurd hr (hno r), fun r hr => absurd hr (hno r), fun r hr => absurd hr (hno r)⟩

/-- **Every run from listings without requests keeps the tables sound.** -/
theorem History.sound {Ok : List Moment → Moment → Prop} {s₀ s : Store} {past : List Moment}
    (h₀ : s₀.requests.rows = []) (h : History cfg Ok s₀ past s) : Sound s.toTables s.clock := by
  refine History.invariant (fun _ s => Sound s.toTables s.clock) (sound_of_empty h₀ _) ?_ h
  intro past s t op _ hs ht _
  rw [step_clock]
  have hs' := hs.later ht.le
  exact Move.sound (move_step cfg hs' op) hs'

/-- A delivered request keeps its row through every later operation. -/
theorem History.delivered_kept {Ok : List Moment → Moment → Prop} {s₀ s : Store}
    {past : List Moment} (h₀ : s₀.requests.rows = []) (h : History cfg Ok s₀ past s) :
    ∀ m ∈ past, ∀ r, Has m.before.toTables r → r.status = .delivered → Has s.toTables r := by
  refine History.invariant (fun past s => ∀ m ∈ past, ∀ r, Has m.before.toTables r →
    r.status = .delivered → Has s.toTables r) (by simp) ?_ h
  intro past s t op hrun ih ht _ m hm r hr hdel
  have hs := (History.sound h₀ hrun).later ht.le
  have hkept : Has s.toTables r := by
    rcases List.mem_cons.mp hm with rfl | hm
    · exact hr
    · exact ih m hm r hr hdel
  obtain ⟨r', hr', _, hstep⟩ := Move.row (move_step cfg hs op) hkept
  obtain rfl := hstep.delivered_same hs hkept hdel
  exact hr'

/-- **The trip state machine.**  Whatever operations run one after another from listings without
requests: a load has at most one trip and is then taken, at most one offer waits for a driver and
none beside a trip, a running trip has its start, and a delivery is final. -/
theorem trip_state_machine (cfg : Services) {s₀ s : Store} {past : List Moment}
    (h₀ : s₀.requests.rows = []) (h : History cfg Unrestricted s₀ past s) :
    (∀ r ∈ s.requests.rows, ∀ r' ∈ s.requests.rows, r.listingId = r'.listingId →
      r.onTrip = true → r'.onTrip = true → r = r') ∧
    (∀ r ∈ s.requests.rows, r.onTrip = true →
      ∃ l, s.listings.get r.listingId = some l ∧ l.status = .taken) ∧
    (∀ now, s.clock ≤ now → ∀ r ∈ s.requests.rows, ∀ r' ∈ s.requests.rows,
      r.listingId = r'.listingId → r.activeOffer now = true →
        (r'.activeOffer now = true → r = r') ∧ r'.onTrip = false) ∧
    (∀ r ∈ s.requests.rows, r.status = .accepted → r.decidedAt.isSome = true) ∧
    (∀ m ∈ past, ∀ r ∈ m.before.requests.rows, r.status = .delivered →
      ∃ r' ∈ s.requests.rows, r'.id = r.id ∧ r'.status = .delivered ∧
        r'.deliveredAt = r.deliveredAt) := by
  have hs := History.sound h₀ h
  simp only [has_iff_mem]
  refine ⟨fun r hr r' hr' hl ht ht' => ?_, fun r hr ht => ?_, fun now hnow r hr r' hr' hl ha => ?_,
    fun r hr hacc => ?_, fun m hm r hr hdel => ?_⟩
  · exact hr.unique hr' (hs.oneTrip r r' hr hr' hl ht ht')
  · obtain ⟨l, hget, _⟩ := hs.owner r hr
    exact ⟨l, hget, hs.taken r l hr ht hget⟩
  · have hs' := hs.later hnow
    exact ⟨fun ha' => hr.unique hr' (hs'.oneOffer r r' hr hr' hl ha ha'),
      hs'.offerFree r r' hr hr' hl ha⟩
  · exact Option.isSome_iff_ne_none.mpr (hs.decided r hr hacc)
  · exact ⟨r, History.delivered_kept h₀ h m hm r hr hdel, rfl, hdel, rfl⟩

/-- A driver asks, is accepted and the delivery is confirmed; then the load is offered again in
vain. -/
def deliveredRun : List (ℕ × TripOp) :=
  [(4, .offer true 10 1 8 none), (3, .deliver false 10 1 none),
    (2, .decide false 10 1 true ⟨none, none⟩), (1, .request driverAnswers 7 1 none)]

theorem trip_state_machine_delivered :
    ((replay ⟨false, false⟩ oneLoad deliveredRun).2.requests.rows.map
        (fun r => (r.driverUserId, r.status, r.deliveredAt)) = [(7, .delivered, some 3)]) ∧
      ∀ r ∈ (replay ⟨false, false⟩ oneLoad deliveredRun).2.requests.rows, r.onTrip = true →
        ∃ l, (replay ⟨false, false⟩ oneLoad deliveredRun).2.listings.get r.listingId = some l ∧
          l.status = .taken :=
  ⟨by decide, (trip_state_machine ⟨false, false⟩ rfl (replay_history _ _ (by decide))).2.1⟩

end TransportBackend.TripInvariant
