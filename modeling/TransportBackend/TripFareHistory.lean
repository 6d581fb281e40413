import TransportBackend.TripRevival

/-!
# The fares on record over a run

A request keeps one row through offers, declines and cancelled trips, and so does its agreed fare:
the `AGREED` row is written again by the next deal and never deleted.  This file follows both rows of
a request over whole runs.

* `Move.agreed_frozen` — while a trip runs, and after it, no operation touches its agreed fare;
* `fares_frozen_and_justified` — **a delivered fare is written once, for a delivered request, and
  names a reason exactly when it differs from the agreed one**;
* `agreed_fare_of_the_deal` — the agreed fare of a running trip is the one of its own deal, in every
  run in which a load is handed over without a fare only to a request that has none on record.
-/

namespace TransportBackend.TripFareHistory

open TransportBackend.AtomicProgram
open TransportBackend.AtomicProgram.Prog
open TransportBackend.KeyedTable
open TransportBackend.TripFareRules
open TransportBackend.TripStore
open TransportBackend.ListingService
open TransportBackend.TripService
open TransportBackend.TripRun
open TransportBackend.TripEffect
open TransportBackend.TripMoves
open TransportBackend.TripInvariant
open TransportBackend.TripRevival

variable {cfg : Services} {t : ℕ} {op : TripOp} {T T' : Tables} {r r' : CargoRequest}

/-! ### Recorded values -/

theorem valid_of_changeReason {v : TripFareValues} (hv : v.Valid)
    (reason : Option FareChangeReason) :
    TripFareValues.Valid { v with changeReason := reason } :=
  ⟨hv.rate, hv.total, hv.weight, hv.total_eq⟩

/-- A fare that was read comes back as it was recorded. -/
theorem view_recorded {kept : Bool} {input : Option TripFareInput} {v : TripFareValues}
    (h : FareRead kept input (some v)) (reason : Option FareChangeReason) (id : ℕ)
    (stage : TripFareStage) (user : ℕ) :
    (TripFare.store id stage { v with changeReason := reason } user).view =
      { v with changeReason := reason } := by
  cases h with
  | read _ hread =>
      exact TripFare.view_store (valid_of_changeReason (readTripFare_valid hread) reason) id stage
        user

theorem recorded_get_self (F : Table TripFare.key) (id : ℕ) (stage : TripFareStage)
    (v : TripFareValues) (user : ℕ) :
    (recorded F id stage (some v) user).get (id, stage) =
      some (TripFare.store id stage v user) :=
  Table.get_put_self F (TripFare.store id stage v user)

theorem recorded_get_of_ne {F : Table TripFare.key} {id : ℕ} {stage : TripFareStage}
    {fare : Option TripFareValues} {user : ℕ} {key : ℕ × TripFareStage} (h : key ≠ (id, stage)) :
    (recorded F id stage fare user).get key = F.get key := by
  cases fare with
  | none => rfl
  | some v => exact Table.get_put_of_ne h

/-! ### What a move writes -/

/-- While a trip runs, and after it, no operation touches its agreed fare. -/
theorem Move.agreed_frozen (h : Move cfg t op T T') (hs : Sound T t) (hr : Has T r)
    (htrip : r.onTrip = true) : T'.fares.get (r.id, .agreed) = T.fares.get (r.id, .agreed) := by
  cases h with
  | accepted hk hpend hl hopen hfree hfare hrows hlist hfares =>
      rw [hfares]
      refine recorded_get_of_ne fun hc => ?_
      rw [hr.unique hk (Prod.mk.inj hc).1] at htrip
      simp [CargoRequest.onTrip, hpend] at htrip
  | offered hl hopen hfree hold hfare =>
      refine recorded_get_of_ne fun hc => ?_
      obtain ⟨hold, hlid, _⟩ := ofDriver_has hold
      have havail : Available t T _ := ⟨⟨_, hl, hopen⟩, hfree⟩
      rw [hr.unique hold (Prod.mk.inj hc).1, havail.noTrip hs hold hlid] at htrip
      cases htrip
  | offeredFirst hl hopen hfree hnone hfare =>
      refine recorded_get_of_ne fun hc => ?_
      rw [Has, (Prod.mk.inj hc).1, Table.get_fresh] at hr
      cases hr
  | offerAccepted hk hactive hrows hlist hfares => rw [hfares]
  | swept hxs hrows hlist hfares => rw [hfares]
  | reminded hrows hlist hfares => rw [hfares]
  | delivered hk hacc hfare hreason hsettle =>
      exact recorded_get_of_ne fun hc => (by cases (Prod.mk.inj hc).2)
  | calledOff hcalled => rw [hcalled.fares]
  | statusSet hguard => rw [listingsSet_fares]
  | _ => rfl

/-- A delivered fare is on record as it was, or is recorded now, with the delivery. -/
theorem Move.delivered_fare (h : Move cfg t op T T') (id : ℕ) :
    T'.fares.get (id, .delivered) = T.fares.get (id, .delivered) ∨
      ∃ r r' input v, Has T r ∧ r.id = id ∧ r.status = .accepted ∧ Has T' r' ∧ r'.id = id ∧
        r'.status = .delivered ∧ FareRead cfg.fares input (some v) ∧
        (deliveryChanged (T.fares.get (id, .agreed)) v = true → v.changeReason ≠ none) ∧
        T'.fares.get (id, .delivered) = some (TripFare.store id .delivered
          (deliveredValues (T.fares.get (id, .agreed)) v) r.companyUserId) := by
  have hstage : ∀ {i : ℕ}, ((id, TripFareStage.delivered) : ℕ × TripFareStage) ≠ (i, .agreed) :=
    fun hc => (by cases (Prod.mk.inj hc).2)
  have hcell : ∀ {r}, Has T r → ∃ r', Has T' r' ∧ r'.id = r.id ∧ RowStep t T op r r' :=
    fun hr => Move.row h hr
  cases h with
  | delivered hk hacc hfare hreason hsettle =>
      rename_i broker k fareInput fare settle
      by_cases hid : id = k.id
      · subst hid
        cases fare with
        | none => exact .inl rfl
        | some v =>
            obtain ⟨k', hk', hkid, hstep⟩ := hcell hk
            have hget := rewrites_saved (t := t) (f := fun r => settle (r.confirmed t)) hk
              (by rcases hsettle with rfl | ⟨percent, rfl⟩ <;> rfl) k.id
            rw [hk, Option.map_some, onlyRow, if_pos rfl] at hget
            have hrow : k' = written t (fun r => settle (r.confirmed t)) k := by
              rw [Has, hkid] at hk'
              exact Option.some.inj (hk'.symm.trans hget)
            refine .inr ⟨k, k', fareInput, v, hk, rfl, hacc, hk', hkid, ?_, hfare,
              hreason v rfl, recorded_get_self _ _ _ _ _⟩
            rw [hrow]
            exact delivered_status hsettle t k
      · exact .inl (recorded_get_of_ne fun hc => hid (Prod.mk.inj hc).1)
  | accepted hk hpend hl hopen hfree hfare hrows hlist hfares =>
      rw [hfares]
      exact .inl (recorded_get_of_ne hstage)
  | offered hl hopen hfree hold hfare => exact .inl (recorded_get_of_ne hstage)
  | offeredFirst hl hopen hfree hnone hfare => exact .inl (recorded_get_of_ne hstage)
  | offerAccepted hk hactive hrows hlist hfares => rw [hfares]; exact .inl rfl
  | swept hxs hrows hlist hfares => rw [hfares]; exact .inl rfl
  | reminded hrows hlist hfares => rw [hfares]; exact .inl rfl
  | calledOff hcalled => rw [hcalled.fares]; exact .inl rfl
  | statusSet hguard => rw [listingsSet_fares]; exact .inl rfl
  | _ => exact .inl rfl

/-! ### Delivered fares -/

/-- A delivered fare on record: its request is delivered, its total is worked out from its own
values, and it names a reason exactly when it differs from the agreed fare. -/
structure Justified (T : Tables) (id : ℕ) (row : TripFare) : Prop where
  delivered : ∃ r, Has T r ∧ r.id = id ∧ r.status = .delivered
  total : row.view.total = fareTotal row.view.basis row.view.rate row.view.weightTons
  reason : ∀ agreed, T.fares.get (id, .agreed) = some agreed →
    (row.changeReason.isSome = true ↔ fareChanged agreed.view row.view = true)

theorem justified_of_delivery {id : ℕ} {input : Option TripFareInput} {v : TripFareValues}
    {user : ℕ} (hdel : ∃ r, Has T' r ∧ r.id = id ∧ r.status = .delivered)
    (hread : FareRead cfg.fares input (some v))
    (hreason : deliveryChanged (T.fares.get (id, .agreed)) v = true → v.changeReason ≠ none)
    (hagreed : T'.fares.get (id, .agreed) = T.fares.get (id, .agreed)) :
    Justified T' id
      (TripFare.store id .delivered (deliveredValues (T.fares.get (id, .agreed)) v) user) := by
  have hview := view_recorded hread
    (if deliveryChanged (T.fares.get (id, .agreed)) v then v.changeReason else none) id .delivered
    user
  have hvalid : v.Valid := by
    cases hread with
    | read _ hr => exact readTripFare_valid hr
  refine ⟨hdel, ?_, fun agreed hrow => ?_⟩
  · rw [deliveredValues, hview]
    exact hvalid.total_eq
  · rw [deliveredValues, hview]
    rw [hagreed] at hrow
    rw [hrow] at hreason
    show (if deliveryChanged (T.fares.get (id, .agreed)) v then v.changeReason else none).isSome
      = true ↔ fareChanged agreed.view v = true
    rw [hrow]
    have hchanged : deliveryChanged (some agreed) v = fareChanged agreed.view v := by
      simp [deliveryChanged]
    rw [hchanged] at hreason ⊢
    cases hc : fareChanged agreed.view v with
    | false => simp
    | true => simpa [Option.isSome_iff_ne_none] using hreason hc

theorem History.justified {Ok : List Moment → Moment → Prop} {s₀ s : Store} {past : List Moment}
    (h₀ : s₀.requests.rows = []) (hf₀ : s₀.fares.rows = []) (h : History cfg Ok s₀ past s) :
    ∀ id row, s.fares.get (id, .delivered) = some row → Justified s.toTables id row := by
  refine History.invariant (fun _ s => ∀ id row, s.fares.get (id, .delivered) = some row →
    Justified s.toTables id row) ?_ ?_ h
  · intro id row hrow
    have hmem := Table.mem_of_get hrow
    rw [hf₀] at hmem
    cases hmem
  · intro past s t op hrun ih ht _ id row hrow
    have hs := (History.sound h₀ hrun).later ht.le
    have hmove := move_step cfg hs op
    rcases Move.delivered_fare hmove id with hsame | ⟨r, r', input, v, hr, rfl, hacc, hr', hid',
      hdel, hread, hreason, hnew⟩
    · rw [hsame] at hrow
      obtain ⟨⟨r, hr, rfl, hdel⟩, htotal, hreason⟩ := ih id row hrow
      have htrip : r.onTrip = true := by simp [CargoRequest.onTrip, hdel]
      obtain ⟨r', hr', hid', hstep⟩ := Move.row hmove hr
      obtain rfl := hstep.delivered_same hs hr hdel
      refine ⟨⟨r', hr', rfl, hdel⟩, htotal, fun agreed hagreed => ?_⟩
      rw [Move.agreed_frozen hmove hs hr htrip] at hagreed
      exact hreason agreed hagreed
    · rw [hnew] at hrow
      cases hrow
      have htrip : r.onTrip = true := by simp [CargoRequest.onTrip, hacc]
      exact justified_of_delivery ⟨r', hr', hid', hdel⟩ hread hreason
        (Move.agreed_frozen hmove hs hr htrip)

/-- A delivered fare keeps its row from the operation that wrote it on. -/
theorem Move.delivered_once (h : Move cfg t op T T') {id : ℕ} {row : TripFare}
    (hrow : T.fares.get (id, .delivered) = some row) (hj : Justified T id row) :
    T'.fares.get (id, .delivered) = some row := by
  rcases Move.delivered_fare h id with hsame | ⟨r, _, _, _, hr, hid, hacc, _⟩
  · rw [hsame]
    exact hrow
  · obtain ⟨x, hx, hxid, hdel⟩ := hj.delivered
    rw [hr.unique hx (hid.trans hxid.symm), hdel] at hacc
    cases hacc

/-- **Agreed fares are frozen and deliveries are justified**, over every run. -/
theorem fares_frozen_and_justified (cfg : Services) {s₀ s : Store} {past : List Moment}
    (h₀ : s₀.requests.rows = []) (hf₀ : s₀.fares.rows = [])
    (h : History cfg Unrestricted s₀ past s) :
    (∀ t op r, s.clock < t → r ∈ s.requests.rows → r.onTrip = true →
      (step cfg t op s).2.fares.get (r.id, .agreed) = s.fares.get (r.id, .agreed)) ∧
    (∀ id row, s.fares.get (id, .delivered) = some row →
      (∃ r ∈ s.requests.rows, r.id = id ∧ r.status = .delivered) ∧
      ∀ t op, s.clock < t → (step cfg t op s).2.fares.get (id, .delivered) = some row) ∧
    (∀ id row, s.fares.get (id, .delivered) = some row →
      row.view.total = fareTotal row.view.basis row.view.rate row.view.weightTons ∧
      ∀ agreed, s.fares.get (id, .agreed) = some agreed →
        (row.changeReason ≠ none ↔
          agreed.view.total ≠ row.view.total ∨ agreed.view.currency ≠ row.view.currency ∨
            agreed.view.weightTons ≠ row.view.weightTons)) := by
  have hsound := History.sound h₀ h
  have hjust := History.justified h₀ hf₀ h
  simp only [has_iff_mem]
  refine ⟨fun t op r ht hr htrip => ?_, fun id row hrow => ⟨(hjust id row hrow).delivered, ?_⟩,
    fun id row hrow => ⟨(hjust id row hrow).total, fun agreed hagreed => ?_⟩⟩
  · have hs := hsound.later ht.le
    exact Move.agreed_frozen (move_step cfg hs op) hs hr htrip
  · intro t op ht
    exact Move.delivered_once (move_step cfg (hsound.later ht.le) op) hrow (hjust id row hrow)
  · rw [← Option.isSome_iff_ne_none, (hjust id row hrow).reason agreed hagreed]
    exact fareChanged_iff

/-- A fare of 1000 tomans for the truck, ten tons. -/
def thousandTotal : TripFareInput := ⟨.value .total, some 1000, some 10, .absent, .absent, none⟩

/-- A fare of 900 tomans for eight tons, for want of the rest. -/
def shortOfLoad : TripFareInput :=
  ⟨.value .total, some 900, some 8, .absent, .value .shortage, none⟩

/-- A driver asks, is accepted at 1000 and delivers less. -/
def shortDelivery : List (ℕ × TripOp) :=
  [(3, .deliver false 10 1 (some shortOfLoad)),
    (2, .decide false 10 1 true ⟨some thousandTotal, none⟩), (1, .request driverAnswers 7 1 none)]

theorem fares_frozen_and_justified_shortage :
    let s := (replay ⟨true, false⟩ oneLoad shortDelivery).2
    (s.fares.get (1, .agreed)).map (·.total) = some 1000 ∧
      (s.fares.get (1, .delivered)).map (fun row => (row.total, row.changeReason)) =
        some (900, some .shortage) ∧
      ∀ t op, s.clock < t → ∀ row, s.fares.get (1, .delivered) = some row →
        (step ⟨true, false⟩ t op s).2.fares.get (1, .delivered) = some row := by
  refine ⟨by decide +kernel, by decide +kernel, fun t op ht row hrow => ?_⟩
  exact ((fares_frozen_and_justified ⟨true, false⟩ rfl rfl
    (replay_history ⟨true, false⟩ oneLoad (by decide))).2.1 1 row hrow).2 t op ht

/-! ### The deal of the running trip -/

/-- The load was handed to the driver of this request at this moment. -/
def OfferedAt (m : Moment) (id : ℕ) : Prop :=
  (m.after.requests.get id).any (fun r => r.status = .offered && r.decidedAt = some m.time) = true

instance (m : Moment) (id : ℕ) : Decidable (OfferedAt m id) :=
  inferInstanceAs (Decidable (_ = true))

/-- The fare input of the deal made on this request at this moment, when one was: an acceptance by
the company, or the load handed over. -/
def dealAt (m : Moment) (id : ℕ) : Option (Option TripFareInput) :=
  match m.op with
  | .decide _ _ k true deal => if k = id ∧ StartedAt m id then some deal.fare else none
  | .offer _ _ _ _ fareInput => if OfferedAt m id then some fareInput else none
  | _ => none

/-- The fare input of the latest deal on this request: the one the running trip started from. -/
def latestDeal : List Moment → ℕ → Option TripFareInput
  | [], _ => none
  | m :: earlier, id => (dealAt m id).getD (latestDeal earlier id)

/-- The values of the latest deal on this request, when it came with a fare. -/
def agreedDeal (past : List Moment) (id : ℕ) : Option TripFareValues :=
  (latestDeal past id).bind fun input => (readTripFare (some input)).toOption

/-- A load is handed over without a fare only when the driver's request for it has none on
record. -/
def NoStaleFare (_ : List Moment) (m : Moment) : Prop :=
  match m.op with
  | .offer _ _ lid d none =>
      ∀ r, m.before.ofDriver lid d = some r → m.before.fares.get (r.id, .agreed) = none
  | _ => True

theorem agreedDeal_dealt {past : List Moment} {m : Moment} {id : ℕ} {input : Option TripFareInput}
    (h : dealAt m id = some input) :
    agreedDeal (m :: past) id = input.bind fun i => (readTripFare (some i)).toOption := by
  rw [agreedDeal, latestDeal, h]
  rfl

theorem agreedDeal_skip {past : List Moment} {m : Moment} {id : ℕ} (h : dealAt m id = none) :
    agreedDeal (m :: past) id = agreedDeal past id := by
  rw [agreedDeal, latestDeal, h]
  rfl

/-- The request waits for its driver's answer, or its trip runs. -/
def dealt (r : CargoRequest) : Bool := r.status = .accepted || r.status = .offered

/-- The agreed fare on record is the one of the latest deal. -/
def OnRecord (past : List Moment) (F : Table TripFare.key) (id : ℕ) : Prop :=
  (F.get (id, .agreed)).map TripFare.view = (agreedDeal past id).map agreedValues

/-- What a run keeps about deals: no decision lies ahead, every fare belongs to a request, and the
agreed fare of a request offered or on a trip is the one of its latest deal. -/
structure DealKept (past : List Moment) (s : Store) : Prop where
  aged : ∀ r, Has s.toTables r → ∀ d, r.decidedAt = some d → d ≤ s.clock
  owned : ∀ id row, s.fares.get (id, .agreed) = some row → ∃ r, Has s.toTables r ∧ r.id = id
  agreed : ∀ r, Has s.toTables r → dealt r = true → OnRecord past s.fares r.id

/-- A row offered or on a trip was so before, or is accepted or handed over now. -/
theorem RowStep.dealt_origin (h : RowStep t T op r r') (hdealt : dealt r' = true) :
    dealt r = true ∨ (∃ broker deal, op = .decide broker r.companyUserId r.id true deal) ∨
      ((∃ isDriver company fareInput,
          op = .offer isDriver company r.listingId r.driverUserId fareInput) ∧
        Available t T r.listingId ∧ T.ofDriver r.listingId r.driverUserId = some r) := by
  cases h with
  | same => exact .inl hdealt
  | accepted hstart => exact .inr (.inl ⟨_, _, rfl⟩)
  | offered havail hold => exact .inr (.inr ⟨⟨_, _, _, rfl⟩, havail, hold⟩)
  | offerAccepted hstart =>
      generalize hop : TripOp.respondOffer _ _ true = op at hstart
      cases hstart with
      | byCompany hs havail => cases hop
      | byDriver hactive => exact .inl (by simp [dealt, status_of_activeOffer hactive])
  | reminded hs hdue => exact .inl (by simp [dealt, hs])
  | reported hs => exact .inl (by simp [dealt, hs])
  | delivered hs hsettle => exact .inl (by simp [dealt, hs])
  | unreported hs => exact .inl (by simp [dealt, hs])
  | _ => cases hdealt

theorem Move.dealt_origin (h : Move cfg t op T T') (hr' : Has T' r') (hdealt : dealt r' = true) :
    (∃ r, Has T r ∧ r.id = r'.id ∧ dealt r = true) ∨
      (∃ broker company deal, op = .decide broker company r'.id true deal) ∨ Hands t T op r' := by
  rcases Move.origin h hr' with ⟨r, hr, hid, hstep⟩ | hnew
  · obtain ⟨hlid, _, hdriver⟩ := hstep.parties
    rcases RowStep.dealt_origin hstep hdealt with hb | ⟨broker, deal, hop⟩ | ⟨hop, havail, hold⟩
    · exact .inl ⟨r, hr, hid, hb⟩
    · rw [hid] at hop
      exact .inr (.inl ⟨_, _, _, hop⟩)
    · rw [← hlid, ← hdriver] at hop hold
      rw [← hlid] at havail
      exact .inr (.inr ⟨hop, havail, by simp [hold, hid]⟩)
  · cases hnew with
    | asked hl havail => cases hdealt
    | offered hl havail hnone =>
        rename_i lid d _ _
        refine .inr (.inr ⟨⟨_, _, _, rfl⟩, havail, ?_⟩)
        show T.requests.fresh = ((T.ofDriver lid d).map CargoRequest.id).getD T.requests.fresh
        rw [hnone]
        rfl

/-- A row's decision is the one it had, or is made now. -/
theorem RowStep.decidedAt_le (h : RowStep t T op r r') {d : ℕ} (hd : r'.decidedAt = some d) :
    r.decidedAt = some d ∨ d = t := by
  cases h with
  | delivered hs hsettle =>
      rcases hsettle with rfl | ⟨percent, rfl⟩ <;> exact .inl hd
  | accepted hstart => exact .inr (Option.some.inj hd).symm
  | rejected hs => exact .inr (Option.some.inj hd).symm
  | turnedDown hk hstart hlid hne hs => exact .inr (Option.some.inj hd).symm
  | offered havail hold => exact .inr (Option.some.inj hd).symm
  | offerAccepted hstart => exact .inr (Option.some.inj hd).symm
  | declined hs => exact .inr (Option.some.inj hd).symm
  | calledOff hs => exact .inr (Option.some.inj hd).symm
  | asked havail hwait hrej hcan => cases hd
  | revived hk hacc hsince hlid hne hs hlate => cases hd
  | _ => exact .inl hd

/-- What a move does to the deal of a request: nothing, or it makes a new one and records its
fare. -/
inductive DealStep (m : Moment) (id : ℕ) : Prop where
  | kept (hskip : dealAt m id = none)
      (hfare : m.after.fares.get (id, .agreed) = m.before.fares.get (id, .agreed))
      (hbefore : ∃ r, Has m.before.toTables r ∧ r.id = id ∧ dealt r = true)
  | made {input : Option TripFareInput} {fare : Option TripFareValues} {kept : Bool} {user : ℕ}
      (hdeal : dealAt m id = some input) (hread : FareRead kept input fare)
      (hkept : kept = false → input = none)
      (hclean : input = none → m.before.fares.get (id, .agreed) = none)
      (hfares : m.after.fares =
        recorded m.before.fares id .agreed (fare.map agreedValues) user)

theorem FareRead.values {kept : Bool} {input : Option TripFareInput}
    {fare : Option TripFareValues} (h : FareRead kept input fare)
    (hkept : kept = false → input = none) :
    fare = input.bind fun i => (readTripFare (some i)).toOption := by
  cases h with
  | skipped hno => rw [hkept hno]; rfl
  | read _ hread =>
      cases input with
      | none => cases hread
      | some i => simp [hread, Except.toOption]

theorem OnRecord.step {past : List Moment} {m : Moment} {id : ℕ} (h : DealStep m id)
    (hbefore : ∀ r, Has m.before.toTables r → dealt r = true → OnRecord past m.before.fares r.id) :
    OnRecord (m :: past) m.after.fares id := by
  cases h with
  | kept hskip hfare hold =>
      obtain ⟨r, hr, rfl, hdealt⟩ := hold
      rw [OnRecord, hfare, agreedDeal_skip hskip]
      exact hbefore r hr hdealt
  | made hdeal hread hkept hclean hfares =>
      rename_i input fare kept user
      rw [OnRecord, agreedDeal_dealt hdeal, ← FareRead.values hread hkept, hfares]
      cases fare with
      | none =>
          have hnone : input = none := by
            cases hread with
            | skipped hno => exact hkept hno
          show (m.before.fares.get (id, .agreed)).map TripFare.view = none
          rw [hclean hnone]
          rfl
      | some v =>
          rw [Option.map_some, recorded_get_self]
          exact congrArg some (view_recorded hread none id .agreed user)

/-- A moment at which no deal is made on a request keeps the request's deal. -/
theorem Move.deal_kept {s s' : Store} (h : Move cfg t op s.toTables s'.toTables)
    (hr' : Has s'.toTables r') (hdealt : dealt r' = true)
    (hdecide : ∀ broker company deal, op ≠ .decide broker company r'.id true deal)
    (hoffer : ¬Hands t s.toTables op r') (hskip : dealAt ⟨t, op, s, s'⟩ r'.id = none)
    (hfare : s'.fares.get (r'.id, .agreed) = s.fares.get (r'.id, .agreed)) :
    DealStep ⟨t, op, s, s'⟩ r'.id := by
  rcases Move.dealt_origin h hr' hdealt with hold | ⟨broker, company, deal, hop⟩ | hhands
  · exact .kept hskip hfare hold
  · exact absurd hop (hdecide broker company deal)
  · exact absurd hhands hoffer

/-- The operation makes a deal, or tries to. -/
def makesDeal : TripOp → Bool
  | .decide _ _ _ true _ => true
  | .offer _ _ _ _ _ => true
  | _ => false

theorem Move.deal_quiet {s s' : Store} (h : Move cfg t op s.toTables s'.toTables)
    (hr' : Has s'.toTables r') (hdealt : dealt r' = true) (hop : makesDeal op = false)
    (hfare : s'.fares.get (r'.id, .agreed) = s.fares.get (r'.id, .agreed)) :
    DealStep ⟨t, op, s, s'⟩ r'.id := by
  refine Move.deal_kept h hr' hdealt ?_ ?_ ?_ hfare
  · rintro broker company deal rfl
    cases hop
  · intro hhands
    obtain ⟨_, _, _, rfl⟩ := hhands.op
    cases hop
  · cases op with
    | decide broker company k accept deal =>
        cases accept with
        | false => rfl
        | true => cases hop
    | offer isDriver company lid d fareInput => cases hop
    | _ => rfl

/-- A row left as it was is not handed over now: its decision is older. -/
theorem not_offeredAt {s s' : Store} {past : List Moment} {id : ℕ} (hkept : DealKept past s)
    (ht : s.clock < t) (hsame : s'.requests.get id = s.requests.get id) :
    ¬OfferedAt ⟨t, op, s, s'⟩ id := by
  intro hc
  simp only [OfferedAt, hsame, Option.any_eq_true, Bool.and_eq_true, decide_eq_true_eq] at hc
  obtain ⟨r, hr, _, hdec⟩ := hc
  have := hkept.aged r (has_of_get hr) t hdec
  omega

theorem dealAt_same {s s' : Store} {past : List Moment} {id : ℕ} (hkept : DealKept past s)
    (ht : s.clock < t) (hsame : s'.requests.get id = s.requests.get id) :
    dealAt ⟨t, op, s, s'⟩ id = none := by
  cases op with
  | decide broker company k accept deal =>
      cases accept with
      | false => rfl
      | true =>
          refine if_neg fun hc => hc.2.1 ?_
          have hafter := hc.2.2
          rw [statusIn, hsame] at hafter
          exact hafter
  | offer isDriver company lid d fareInput => exact if_neg (not_offeredAt hkept ht hsame)
  | _ => rfl

/-- **Every move takes such a step.** -/
theorem Move.deal {s s' : Store} {past : List Moment} (hcfg : cfg.fares = true)
    (h : Move cfg t op s.toTables s'.toTables)
    (hkept : DealKept past s) (ht : s.clock < t) (hok : NoStaleFare past ⟨t, op, s, s'⟩)
    (hr' : Has s'.toTables r') (hdealt : dealt r' = true) : DealStep ⟨t, op, s, s'⟩ r'.id := by
  have hkeep := Move.deal_kept h hr' hdealt
  have hquiet := Move.deal_quiet h hr' hdealt
  generalize hT : s.toTables = T at h
  generalize hT' : s'.toTables = T' at h
  have hF : s.fares = T.fares := by rw [← hT]
  have hF' : s'.fares = T'.fares := by rw [← hT']
  cases h with
  | idle =>
      refine .kept (dealAt_same hkept ht ?_) (by rw [hF, hF']) ⟨r', ?_, rfl, hdealt⟩
      · show s'.toTables.requests.get _ = s.toTables.requests.get _
        rw [hT, hT']
      · rw [hT, ← hT']
        exact hr'
  | accepted hk hpend hl hopen hfree hfare hrows hlist hfares =>
      rename_i broker k deal l payModel fare
      by_cases hid : r'.id = k.id
      · have hstarted : StartedAt ⟨t, .decide broker k.companyUserId k.id true deal, s, s'⟩ r'.id := by
          have hget := hrows k.id
          rw [hk, Option.map_some, tripStarted_self (f := CargoRequest.decided true payModel t)
            (fun _ => rfl)] at hget
          subst hT hT'
          rw [hid]
          refine ⟨?_, ?_⟩
          · rw [statusIn_of_has hk, hpend]
            simp
          · rw [statusIn, hget]
            rfl
        refine .made (if_pos ⟨hid.symm, hstarted⟩) hfare (fun hno => ?_) (fun hno => ?_)
          (by rw [hF, hF', hfares, hid])
        · rw [hcfg] at hno
          cases hno
        · rw [hno, hcfg] at hfare
          cases hfare with
          | skipped hc => cases hc
          | read _ hread => cases hread
      · refine hkeep (fun _ _ _ hc => ?_) (fun hhands => ?_) (if_neg fun hc => hid hc.1.symm) ?_
        · simp only [TripOp.decide.injEq] at hc
          exact hid hc.2.2.1.symm
        · obtain ⟨_, _, _, hop⟩ := hhands.op
          cases hop
        · rw [hF, hF', hfares]
          exact recorded_get_of_ne fun hc => hid (Prod.mk.inj hc).1
  | offered hl hopen hfree hold hfare =>
      rename_i isDriver lid d fareInput l old fare
      have hhas := (ofDriver_has hold).1
      have hget := rewrites_saved (t := t) (f := CargoRequest.handed t) hhas rfl r'.id
      have hrow : s'.requests.get r'.id = (T.requests.get r'.id).map
          (onlyRow t old.id (CargoRequest.handed t)) := by
        rw [← hget]
        show s'.toTables.requests.get _ = _
        rw [hT']
        rfl
      by_cases hid : r'.id = old.id
      · rw [hid, hhas, Option.map_some, onlyRow, if_pos rfl, ← hid] at hrow
        refine .made (if_pos ?_) hfare (fun hno => ?_) (fun hno => ?_) (by rw [hF, hF', hid]; rfl)
        · simp only [OfferedAt, hrow]
          simp [written, CargoRequest.handed, CargoRequest.stamped]
        · simpa [hcfg] using hno
        · subst hno
          rw [hid]
          exact hok old (by rw [hT]; exact hold)
      · have hsame : s'.requests.get r'.id = s.requests.get r'.id := by
          rw [hrow]
          show _ = s.toTables.requests.get _
          rw [hT]
          cases hx : T.requests.get r'.id with
          | none => rfl
          | some x => rw [Option.map_some, onlyRow, if_neg (Table.key_of_get hx ▸ hid)]
        refine hkeep (fun _ _ _ hc => (by cases hc)) (fun hhands => hid ?_)
          (dealAt_same hkept ht hsame) ?_
        · obtain ⟨_, _, _, hop⟩ := hhands.op
          simp only [TripOp.offer.injEq] at hop
          have hids := hhands.id
          rw [← hop.2.2.1, ← hop.2.2.2.1, hT, hold] at hids
          exact hids
        · rw [hF, hF']
          exact recorded_get_of_ne fun hc => hid (Prod.mk.inj hc).1
  | offeredFirst hl hopen hfree hnone hfare =>
      rename_i isDriver lid d fareInput l fare
      have hrow : s'.requests.get r'.id = if r'.id = T.requests.fresh then
          some (((CargoRequest.create lid d l.publisherUserId).handed t).inserted T.requests.fresh t)
          else s.requests.get r'.id := by
        show s'.toTables.requests.get _ = if _ then _ else s.toTables.requests.get _
        rw [hT', hT]
        exact Table.get_put _ _ _
      by_cases hid : r'.id = T.requests.fresh
      · rw [if_pos hid] at hrow
        refine .made (if_pos ?_) hfare (fun hno => ?_) (fun hno => ?_) (by rw [hF, hF', hid]; rfl)
        · simp only [OfferedAt, hrow]
          simp [CargoRequest.handed, CargoRequest.inserted]
        · simpa [hcfg] using hno
        · -- a fare on record has its request, and this id had none
          by_contra hc
          obtain ⟨row, hrow⟩ := Option.ne_none_iff_exists'.mp hc
          obtain ⟨r, hr, hrid⟩ := hkept.owned _ _ hrow
          rw [Has, hrid, hid, hT, Table.get_fresh] at hr
          cases hr
      · rw [if_neg hid] at hrow
        refine hkeep (fun _ _ _ hc => (by cases hc)) (fun hhands => hid ?_)
          (dealAt_same hkept ht hrow) ?_
        · obtain ⟨_, _, _, hop⟩ := hhands.op
          simp only [TripOp.offer.injEq] at hop
          have hids := hhands.id
          rw [← hop.2.2.1, ← hop.2.2.2.1, hT, hnone] at hids
          exact hids
        · rw [hF, hF']
          exact recorded_get_of_ne fun hc => hid (Prod.mk.inj hc).1
  | delivered hk hacc hfare hreason hsettle =>
      refine hquiet rfl ?_
      rw [hF, hF']
      exact recorded_get_of_ne fun hc => (by cases (Prod.mk.inj hc).2)
  | offerAccepted hk hactive hrows hlist hfares => exact hquiet rfl (by rw [hF, hF', hfares])
  | swept hxs hrows hlist hfares => exact hquiet rfl (by rw [hF, hF', hfares])
  | reminded hrows hlist hfares => exact hquiet rfl (by rw [hF, hF', hfares])
  | calledOff hcalled => exact hquiet rfl (by rw [hF, hF', hcalled.fares])
  | statusSet hguard => exact hquiet rfl (by rw [hF, hF', listingsSet_fares])
  | _ => exact hquiet rfl (by rw [hF, hF']; rfl)

/-- An agreed fare on record was there before, or belongs to a request that is there now. -/
theorem Move.agreed_owner (h : Move cfg t op T T') (id : ℕ) :
    T'.fares.get (id, .agreed) = T.fares.get (id, .agreed) ∨ ∃ r', Has T' r' ∧ r'.id = id := by
  have hcell : ∀ {r}, Has T r → ∃ r', Has T' r' ∧ r'.id = r.id := by
    intro r hr
    obtain ⟨r', hr', hid, _⟩ := Move.row h hr
    exact ⟨r', hr', hid⟩
  cases h with
  | accepted hk hpend hl hopen hfree hfare hrows hlist hfares =>
      rename_i broker k deal l payModel fare
      by_cases hid : id = k.id
      · exact .inr (hid ▸ hcell hk)
      · rw [hfares]
        exact .inl (recorded_get_of_ne fun hc => hid (Prod.mk.inj hc).1)
  | offered hl hopen hfree hold hfare =>
      rename_i isDriver lid d fareInput l old fare
      by_cases hid : id = old.id
      · exact .inr (hid ▸ hcell (ofDriver_has hold).1)
      · exact .inl (recorded_get_of_ne fun hc => hid (Prod.mk.inj hc).1)
  | offeredFirst hl hopen hfree hnone hfare =>
      by_cases hid : id = T.requests.fresh
      · exact .inr ⟨_, Table.get_put_self _ _, hid.symm⟩
      · exact .inl (recorded_get_of_ne fun hc => hid (Prod.mk.inj hc).1)
  | offerAccepted hk hactive hrows hlist hfares => rw [hfares]; exact .inl rfl
  | swept hxs hrows hlist hfares => rw [hfares]; exact .inl rfl
  | reminded hrows hlist hfares => rw [hfares]; exact .inl rfl
  | delivered hk hacc hfare hreason hsettle =>
      exact .inl (recorded_get_of_ne fun hc => (by cases (Prod.mk.inj hc).2))
  | calledOff hcalled => rw [hcalled.fares]; exact .inl rfl
  | statusSet hguard => rw [listingsSet_fares]; exact .inl rfl
  | _ => exact .inl rfl

theorem History.dealKept {s₀ s : Store} {past : List Moment} (hcfg : cfg.fares = true)
    (h₀ : s₀.requests.rows = []) (hf₀ : s₀.fares.rows = [])
    (h : History cfg NoStaleFare s₀ past s) : DealKept past s := by
  refine History.invariant DealKept ⟨fun r hr => ?_, fun id row hrow => ?_, fun r hr => ?_⟩ ?_ h
  · rw [← has_iff_mem, h₀] at hr
    cases hr
  · have hmem := Table.mem_of_get hrow
    rw [hf₀] at hmem
    cases hmem
  · rw [← has_iff_mem, h₀] at hr
    cases hr
  intro past s t op hrun hkept ht hok
  have hmove := move_step cfg ((History.sound h₀ hrun).later ht.le) op
  refine ⟨fun r' hr' d hd => ?_, fun id row hrow => ?_, fun r' hr' hdealt => ?_⟩
  · rw [step_clock]
    rcases Move.origin hmove hr' with ⟨r, hr, _, hstep⟩ | hnew
    · rcases RowStep.decidedAt_le hstep hd with hd | rfl
      · exact (hkept.aged r hr d hd).trans ht.le
      · exact le_rfl
    · cases hnew with
      | asked hl havail => cases hd
      | offered hl havail hnone => exact (Option.some.inj hd).ge
  · rcases Move.agreed_owner hmove id with hsame | hr'
    · rw [hsame] at hrow
      obtain ⟨r, hr, rfl⟩ := hkept.owned id row hrow
      obtain ⟨r', hr', hid, _⟩ := Move.row hmove hr
      exact ⟨r', hr', hid⟩
    · exact hr'
  · exact OnRecord.step (Move.deal hcfg hmove hkept ht hok hr' hdealt) hkept.agreed

/-- `recordDelivered` asks for a reason exactly when the fare on record differs. -/
theorem recordDelivered_refused_iff (r : CargoRequest) (v : TripFareValues) (user : ℕ)
    (s : Store) :
    ((recordDelivered r v user).run exec s).1 = .error (.badRequest changeReasonError) ↔
      deliveryChanged (s.fares.get (r.id, .agreed)) v = true ∧ v.changeReason = none := by
  constructor
  · intro herr
    by_contra hno
    have hok : (recordDelivered r v user).After exec s (fun _ _ => True) (fun _ => False) := by
      simp only [recordDelivered, after_bind, after_issue, after_refuseIf, exec]
      exact ⟨fun hc => hno hc, fun _ => after_upsert trivial⟩
    unfold After at hok
    generalize (recordDelivered r v user).run exec s = out at herr hok
    obtain ⟨_ | _, s'⟩ := out
    · exact hok
    · cases herr
  · intro hc
    have hrefused : refuseIf (deliveryChanged (s.fares.get (r.id, .agreed)) v = true ∧
        v.changeReason = none) (.badRequest changeReasonError) =
        (.throw (.badRequest changeReasonError) : Trip Unit) := if_pos hc
    show ((refuseIf (deliveryChanged (s.fares.get (r.id, .agreed)) v = true ∧
      v.changeReason = none) (.badRequest changeReasonError) >>= fun _ => upsert r.id .delivered
        (deliveredValues (s.fares.get (r.id, .agreed)) v) user : Trip Unit).run exec s).1 = _
    rw [hrefused]
    rfl

/-- **The fare on record is the one of this deal**, in every run in which a load is handed over
without a fare only to a request that has none on record; a delivery then has to name a reason
exactly when it differs from what was agreed for this trip. -/
theorem agreed_fare_of_the_deal (cfg : Services) (hcfg : cfg.fares = true) {s₀ s : Store}
    {past : List Moment} (h₀ : s₀.requests.rows = []) (hf₀ : s₀.fares.rows = [])
    (h : History cfg NoStaleFare s₀ past s) :
    ∀ r ∈ s.requests.rows, r.status = .accepted →
      (s.fares.get (r.id, .agreed)).map TripFare.view = (agreedDeal past r.id).map agreedValues ∧
      ∀ v user, ((recordDelivered r v user).run exec s).1 =
          .error (.badRequest changeReasonError) ↔
        v.changeReason = none ∧ ∃ agreed, agreedDeal past r.id = some agreed ∧
          (agreed.total ≠ v.total ∨ agreed.currency ≠ v.currency ∨
            agreed.weightTons ≠ v.weightTons) := by
  intro r hr hacc
  have hagreed : OnRecord past s.fares r.id :=
    (History.dealKept hcfg h₀ hf₀ h).agreed r (has_iff_mem.mp hr) (by simp [dealt, hacc])
  refine ⟨hagreed, fun v user => ?_⟩
  rw [recordDelivered_refused_iff, and_comm]
  refine and_congr_right fun _ => ?_
  unfold OnRecord at hagreed
  cases hrow : s.fares.get (r.id, .agreed) with
  | none =>
      rw [hrow] at hagreed
      have hdeal : agreedDeal past r.id = none := by simpa using hagreed.symm
      simp [deliveryChanged, hdeal]
  | some row =>
      rw [hrow] at hagreed
      obtain ⟨v', hdeal, hview⟩ := Option.map_eq_some_iff.mp hagreed.symm
      have hchanged : deliveryChanged (some row) v = fareChanged (agreedValues v') v := by
        simp [deliveryChanged, hview]
      rw [hchanged, hdeal, fareChanged_iff]
      simp [agreedValues]

/-- The load handed to driver 7 at a fare of 1000, and accepted. -/
def pricedRun : List (ℕ × TripOp) :=
  [(2, .respondOffer 7 1 true), (1, .offer true 10 1 7 (some thousandTotal))]

theorem agreed_fare_of_the_deal_priced :
    let run := replay ⟨true, false⟩ oneLoad pricedRun
    (run.2.requests.rows.map (·.status) = [.accepted]) ∧
      (agreedDeal run.1 1).map (·.total) = some 1000 ∧
      ∀ r ∈ run.2.requests.rows, r.status = .accepted →
        (run.2.fares.get (r.id, .agreed)).map TripFare.view =
          (agreedDeal run.1 r.id).map agreedValues := by
  refine ⟨by decide +kernel, by decide +kernel, fun r hr hacc => ?_⟩
  have hok : AllMeet NoStaleFare (replay ⟨true, false⟩ oneLoad pricedRun).1 :=
    ⟨trivial, trivial, trivial⟩
  exact (agreed_fare_of_the_deal ⟨true, false⟩ rfl rfl rfl
    (replay_meets ⟨true, false⟩ oneLoad (by decide) hok) r hr hacc).1

/-- The driver declines an offer at 1000 and accepts the next one, made without a fare: the fare of
the first deal is on record for the second. -/
theorem stale_agreed_fare :
    ¬∀ past s, History ⟨true, false⟩ Unrestricted oneLoad past s →
      ∀ r ∈ s.requests.rows, r.status = .accepted →
        (s.fares.get (r.id, .agreed)).map TripFare.view =
          (agreedDeal past r.id).map agreedValues := by
  intro hclaim
  have hrun : Ordered oneLoad.clock [(4, .respondOffer 7 1 true), (3, .offer true 10 1 7 none),
      (2, .respondOffer 7 1 false), (1, .offer true 10 1 7 (some thousandTotal))] := by
    decide
  exact absurd (hclaim _ _ (replay_history ⟨true, false⟩ oneLoad hrun)) (by decide +kernel)

end TransportBackend.TripFareHistory
