import TransportBackend.TripRun

/-!
# What the services' steps do when a method runs alone

One rule for each helper the methods are made of, in the form `After` takes programs apart: what a
save leaves, what a loop of saves leaves, what a read answers.  The methods themselves are then
described by `TripMoves`, which never unfolds a helper.

* `Tables.Has` — a row is in the table; the queries in those terms;
* `after_saveEach` — **a loop of saves over rows read once** rewrites exactly those rows;
* `after_completeAssignment`, `after_setStatus` — the two halves of starting a trip.
-/

namespace TransportBackend.TripEffect

open TransportBackend.AtomicProgram
open TransportBackend.AtomicProgram.Prog
open TransportBackend.KeyedTable
open TransportBackend.TripFareRules
open TransportBackend.TripStore
open TransportBackend.ListingService
open TransportBackend.TripService
open TransportBackend.TripRun

/-! ### Rows -/

/-- The table holds this row. -/
def Has (T : Tables) (r : CargoRequest) : Prop := T.requests.get r.id = some r

theorem has_of_get {T : Tables} {id : ℕ} {r : CargoRequest} (h : T.requests.get id = some r) :
    Has T r := by
  rw [Has, Table.key_of_get h]
  exact h

theorem has_iff_mem {T : Tables} {r : CargoRequest} : r ∈ T.requests.rows ↔ Has T r :=
  Table.mem_rows

theorem Has.unique {T : Tables} {r r' : CargoRequest} (h : Has T r) (h' : Has T r')
    (hid : r.id = r'.id) : r = r' := by
  rw [Has, hid, h'] at h
  exact (Option.some.inj h).symm

theorem mem_activeOffers {T : Tables} {l now : ℕ} {r : CargoRequest} :
    r ∈ T.activeOffers l now ↔ Has T r ∧ r.listingId = l ∧ r.activeOffer now = true := by
  simp [Tables.activeOffers, has_iff_mem]

theorem mem_otherPending {T : Tables} {l e : ℕ} {r : CargoRequest} :
    r ∈ T.otherPending l e ↔ Has T r ∧ r.listingId = l ∧ r.status = .pending ∧ r.id ≠ e := by
  simp [Tables.otherPending, has_iff_mem, and_assoc]

theorem mem_takenOver {T : Tables} {l e since : ℕ} {r : CargoRequest} :
    r ∈ T.takenOver l e since ↔
      Has T r ∧ r.listingId = l ∧ r.status = .rejected ∧ r.id ≠ e ∧
        r.decidedAt.any (since ≤ ·) = true := by
  simp [Tables.takenOver, has_iff_mem, and_assoc]

theorem mem_tripsDue {T : Tables} {before : ℤ} {r : CargoRequest} :
    r ∈ T.tripsDue before ↔ Has T r ∧ r.status = .accepted ∧ (r.remindFrom : ℤ) < before := by
  simp [Tables.tripsDue, has_iff_mem]

theorem mem_expiredOffers {T : Tables} {now : ℕ} {r : CargoRequest} :
    r ∈ T.expiredOffers now ↔ Has T r ∧ r.expiredOffer now = true := by
  simp [Tables.expiredOffers, has_iff_mem]

theorem tripIndexRefuses_iff {T : Tables} {e : CargoRequest} :
    T.tripIndexRefuses e = true ↔ e.onTrip = true ∧
      ∃ r, Has T r ∧ r.listingId = e.listingId ∧ r.id ≠ e.id ∧ r.onTrip = true := by
  simp [Tables.tripIndexRefuses, has_iff_mem, and_assoc]

theorem activeTrip_iff {T : Tables} {l now : ℕ} :
    T.activeTrip l now = true ↔
      ∃ r, Has T r ∧ r.listingId = l ∧ (r.status = .accepted ∨ r.activeOffer now = true) := by
  simp [Tables.activeTrip, has_iff_mem]

theorem anyDelivered_iff {T : Tables} {l : ℕ} :
    T.anyDelivered l = true ↔ ∃ r, Has T r ∧ r.listingId = l ∧ r.status = .delivered := by
  simp [Tables.anyDelivered, has_iff_mem]

theorem ofDriver_has {T : Tables} {l d : ℕ} {r : CargoRequest} (h : T.ofDriver l d = some r) :
    Has T r ∧ r.listingId = l ∧ r.driverUserId = d := by
  have hp := List.find?_some h
  simp only [Bool.and_eq_true, decide_eq_true_eq] at hp
  exact ⟨has_iff_mem.mp (List.mem_of_find?_eq_some h), hp⟩

/-- The distinct rows a filter picks have distinct ids. -/
theorem nodup_filter_ids (T : Tables) (p : CargoRequest → Bool) :
    ((T.requests.rows.filter p).map (·.id)).Nodup :=
  T.requests.nodup.sublist (List.filter_sublist.map _)

/-! ### Saves -/

/-- The tables after a save that no index refuses. -/
def saved (T : Tables) (t : ℕ) (e : CargoRequest) : Tables :=
  T.putRequest (e.stamped (T.requests.get e.id) t)

/-- A row changed by `f` and saved at `t`. -/
def written (t : ℕ) (f : CargoRequest → CargoRequest) (r : CargoRequest) : CargoRequest :=
  (f r).stamped (some r) t

theorem written_id {t : ℕ} {f : CargoRequest → CargoRequest} (hid : ∀ r, (f r).id = r.id)
    (r : CargoRequest) : (written t f r).id = r.id := hid r

/-- The row with this id changed by `f` and saved, the others as they are. -/
def onlyRow (t id : ℕ) (f : CargoRequest → CargoRequest) (r : CargoRequest) : CargoRequest :=
  if r.id = id then written t f r else r

/-- `T'` has the rows of `T`, each changed by `g`. -/
def Rewrites (g : CargoRequest → CargoRequest) (T T' : Tables) : Prop :=
  ∀ id, T'.requests.get id = (T.requests.get id).map g

theorem Rewrites.trans {g g' : CargoRequest → CargoRequest} {T T' T'' : Tables}
    (h : Rewrites g T T') (h' : Rewrites g' T' T'') : Rewrites (fun r => g' (g r)) T T'' := by
  intro id
  rw [h' id, h id, Option.map_map]
  rfl

theorem rewrites_saved {T : Tables} {r : CargoRequest} {t : ℕ} {f : CargoRequest → CargoRequest}
    (hr : Has T r) (hid : (f r).id = r.id) :
    Rewrites (onlyRow t r.id f) T (saved T t (f r)) := by
  intro id
  have hget : T.requests.get (f r).id = some r := by rw [hid]; exact hr
  show (T.requests.put ((f r).stamped (T.requests.get (f r).id) t)).get id = _
  rw [hget, Table.get_put]
  show (if id = (f r).id then _ else _) = _
  rw [hid]
  by_cases h : id = r.id
  · subst h
    rw [if_pos rfl, hr]
    simp [onlyRow, written]
  · rw [if_neg h]
    cases hx : T.requests.get id with
    | none => rfl
    | some x =>
        have hne : ¬x.id = r.id := by rw [Table.key_of_get hx]; exact h
        simp [onlyRow, hne]

@[simp] theorem saved_listings (T : Tables) (t : ℕ) (e : CargoRequest) :
    (saved T t e).listings = T.listings := rfl

@[simp] theorem saved_fares (T : Tables) (t : ℕ) (e : CargoRequest) :
    (saved T t e).fares = T.fares := rfl

/-- The store after a save. -/
def storeSaved (s : Store) (e : CargoRequest) : Store := s.setTables (saved s.toTables s.clock e)

/-- The store after a notice. -/
def storeNoted (s : Store) (userId : ℕ) (key : NoticeKey) (requestId : ℕ) : Store :=
  { s with outbox := ⟨userId, key, requestId, s.clock⟩ :: s.outbox }

@[simp] theorem setTables_toTables (s : Store) (T : Tables) : (s.setTables T).toTables = T := rfl

@[simp] theorem setTables_clock (s : Store) (T : Tables) : (s.setTables T).clock = s.clock := rfl

@[simp] theorem storeSaved_toTables (s : Store) (e : CargoRequest) :
    (storeSaved s e).toTables = saved s.toTables s.clock e := rfl

@[simp] theorem storeSaved_clock (s : Store) (e : CargoRequest) :
    (storeSaved s e).clock = s.clock := rfl

@[simp] theorem storeSaved_outbox (s : Store) (e : CargoRequest) :
    (storeSaved s e).outbox = s.outbox := rfl

@[simp] theorem storeNoted_toTables (s : Store) (u : ℕ) (k : NoticeKey) (id : ℕ) :
    (storeNoted s u k id).toTables = s.toTables := rfl

@[simp] theorem storeNoted_clock (s : Store) (u : ℕ) (k : NoticeKey) (id : ℕ) :
    (storeNoted s u k id).clock = s.clock := rfl

/-! ### The rules of the helpers -/

variable {s : Store} {E : Store → Prop}

@[simp] theorem after_issue (c : TripCmd) (s : Store) {Q : Resp c → Store → Prop} :
    Prog.After (α := no_index (Resp c)) exec (issue c) s Q E ↔ Q (exec c s).1 (exec c s).2 :=
  Iff.rfl

@[simp] theorem after_dateNow (s : Store) {Q : ℕ → Store → Prop} :
    dateNow.After exec s Q E ↔ Q s.clock s := Iff.rfl

@[simp] theorem after_runIf (b : Bool) (p : Trip Unit) (s : Store) {Q : Unit → Store → Prop} :
    (runIf b p).After exec s Q E ↔ (b = true → p.After exec s Q E) ∧ (b = false → Q () s) := by
  cases b <;> simp [runIf]

@[simp] theorem after_notify (u : ℕ) (k : NoticeKey) (id : ℕ) (s : Store)
    {Q : Unit → Store → Prop} :
    (notify u k id).After exec s Q E ↔ Q () (storeNoted s u k id) := Iff.rfl

theorem after_saveRequest {w : Writer} {r e : CargoRequest} {Q : Unit → Store → Prop}
    (hfree : s.tripIndexRefuses e = false) (h : Q () (storeSaved s e)) :
    (saveRequest w r e).After exec s Q E := by
  simp only [saveRequest, after_bind, after_issue, after_refuseIf]
  simp only [exec, Tables.saveRequest, hfree]
  exact ⟨fun hc => (by cases hc), fun _ => h⟩

theorem after_saveTrip {w : Writer} {r e : CargoRequest} {Q : Unit → Store → Prop}
    (hfree : s.tripIndexRefuses e = false) (h : Q () (storeSaved s e)) :
    (saveTrip w r e).After exec s Q E := by
  simp only [saveTrip, after_bind, after_issue, after_refuseIf]
  simp only [exec, Tables.saveRequest, hfree]
  exact ⟨fun hc => (by cases hc), fun _ => h⟩

theorem after_owned {id : ℕ} {allowed : CargoRequest → Bool}
    {Q : CargoRequest × CargoListing → Store → Prop} (hE : E s)
    (h : ∀ r l, Has s.toTables r → r.id = id → s.listings.get r.listingId = some l →
      allowed r = true → Q (r, l) s) :
    (owned id allowed).After exec s Q E := by
  simp only [owned, after_bind, after_issue, after_orThrow]
  refine ⟨fun _ => hE, fun rl hrl => ?_⟩
  simp only [exec, Option.filter_eq_some_iff, Option.bind_eq_some_iff, Option.map_eq_some_iff] at hrl
  obtain ⟨⟨r, hr, l, hl, rfl⟩, hallowed⟩ := hrl
  exact h r l (has_of_get hr) (Table.key_of_get hr) hl hallowed

theorem after_reload {id : ℕ} {Q : CargoRequest → Store → Prop}
    (hnone : (∀ r l, s.requests.get id = some r → s.listings.get r.listingId ≠ some l) → E s)
    (h : ∀ r, s.requests.get id = some r → Q r s) :
    (reload id).After exec s Q E := by
  simp only [reload, after_bind, after_issue, after_orThrow]
  refine ⟨fun hn => hnone fun r l hr hl => ?_, fun r hr => ?_⟩
  · simp [exec, hr, hl] at hn
  · simp only [exec, Option.map_eq_some_iff, Option.bind_eq_some_iff] at hr
    obtain ⟨_, ⟨r', hr', l, hl, rfl⟩, rfl⟩ := hr
    exact h r' hr'

/-- The fare a method reads: none where it does not ask, else what `readTripFare` accepts. -/
inductive FareRead (kept : Bool) (input : Option TripFareInput) : Option TripFareValues → Prop where
  | skipped : kept = false → FareRead kept input none
  | read {v : TripFareValues} :
      kept = true → readTripFare input = .ok v → FareRead kept input (some v)

theorem after_fareIf {kept : Bool} {input : Option TripFareInput}
    {Q : Option TripFareValues → Store → Prop} (hE : E s)
    (h : ∀ fare, FareRead kept input fare → Q fare s) :
    (fareIf kept input).After exec s Q E := by
  cases kept with
  | false => exact h none (.skipped rfl)
  | true =>
      simp only [fareIf, if_true, after_bind, readFare]
      cases hread : readTripFare input with
      | error message => exact hE
      | ok v => exact h (some v) (.read rfl hread)

@[simp] theorem after_refuseReserved (l : ℕ) (s : Store) {Q : Unit → Store → Prop} :
    (refuseReserved l).After exec s Q E ↔
      (s.activeOffers l s.clock ≠ [] → E s) ∧ (s.activeOffers l s.clock = [] → Q () s) := by
  simp only [refuseReserved, after_bind, after_dateNow, after_issue, after_refuseIf, exec]
  cases s.activeOffers l s.clock <;> simp

/-! ### Fares -/

/-- The fares with the values of a stage recorded, when there are any. -/
def recorded (F : Table TripFare.key) (id : ℕ) (stage : TripFareStage)
    (fare : Option TripFareValues) (user : ℕ) : Table TripFare.key :=
  match fare with
  | some v => F.put (TripFare.store id stage v user)
  | none => F

/-- The tables with other fares. -/
def withFares (T : Tables) (F : Table TripFare.key) : Tables := { T with fares := F }

theorem after_upsert {id : ℕ} {stage : TripFareStage} {v : TripFareValues} {user : ℕ}
    {Q : Unit → Store → Prop}
    (h : Q () (s.setTables (withFares s.toTables (recorded s.fares id stage (some v) user)))) :
    (upsert id stage v user).After exec s Q E := by
  simp only [upsert, after_bind, after_issue, after_refuseIf, exec]
  have hfree : ((s.fares.get (id, stage)).isNone &&
      (s.fares.get (TripFare.store id stage v user).key).isSome) = false := by
    show ((s.fares.get (id, stage)).isNone && (s.fares.get (id, stage)).isSome) = false
    cases s.fares.get (id, stage) <;> rfl
  simp only [Tables.saveFare, hfree]
  exact ⟨fun hc => (by cases hc), fun _ => h⟩

/-- The values an agreement keeps: no reason. -/
def agreedValues (v : TripFareValues) : TripFareValues := { v with changeReason := none }

theorem after_recordAgreedIfGiven {r : CargoRequest} {fare : Option TripFareValues} {user : ℕ}
    {Q : Unit → Store → Prop} (htrip : r.onTrip = false)
    (h : Q () (s.setTables
      (withFares s.toTables (recorded s.fares r.id .agreed (fare.map agreedValues) user)))) :
    (recordAgreedIfGiven r fare user).After exec s Q E := by
  cases fare with
  | none => exact h
  | some v =>
      simp only [recordAgreedIfGiven, recordAgreed, after_bind, htrip, after_runIf]
      exact ⟨fun hc => (by cases hc), fun _ => after_upsert h⟩

theorem after_recordDeliveredIfGiven {r : CargoRequest} {fare : Option TripFareValues} {user : ℕ}
    {Q : Unit → Store → Prop} (hE : E s)
    (h : (∀ v ∈ fare, deliveryChanged (s.fares.get (r.id, .agreed)) v = true →
        v.changeReason ≠ none) →
      Q () (s.setTables (withFares s.toTables (recorded s.fares r.id .delivered
        (fare.map (deliveredValues (s.fares.get (r.id, .agreed)))) user)))) :
    (recordDeliveredIfGiven r fare user).After exec s Q E := by
  cases fare with
  | none => exact h (fun v hv => (by cases hv))
  | some v =>
      simp only [recordDeliveredIfGiven, recordDelivered, after_bind, after_issue, after_refuseIf,
        exec]
      refine ⟨fun _ => hE, fun hreason => after_upsert (h fun v' hv' hchanged hnone => ?_)⟩
      cases hv'
      exact hreason ⟨hchanged, hnone⟩

/-! ### Answers from elsewhere -/

theorem after_requestFor {answers : RequestAnswers} {Q : Option BrokerDriver → Store → Prop}
    (hE : E s) (h : ∀ driverFor, Q driverFor s) : (requestFor answers).After exec s Q E := by
  unfold requestFor
  split
  · cases answers.driverFor <;> simp [orBadRequest, hE, h]
  · simp [hE, h]

theorem after_charge {cfg : Services} {answers : RequestAnswers} {Q : Unit → Store → Prop}
    (hE : E s) (h : Q () s) : (charge cfg answers).After exec s Q E := by
  unfold charge
  split
  · exact h
  · exact hE

theorem after_dealPayModel {cfg : Services} {accept : Bool} {deal : Deal} {r : CargoRequest}
    {Q : Option BrokerPayModel → Store → Prop} (h : ∀ payModel, Q payModel s) :
    (dealPayModel cfg accept deal r).After exec s Q E := by
  unfold dealPayModel
  split
  · split
    · exact h _
    · split
      · simp only [lastPayModel, after_bind, after_issue, after_pure]
        exact h _
      · exact h _
  · exact h _

/-! ### The broker's policy -/

theorem after_getPolicy {Q : ℕ → Store → Prop}
    (h : ∀ percent s', s'.toTables = s.toTables → s'.clock = s.clock → Q percent s') :
    getPolicy.After exec s Q E := by
  simp only [getPolicy, after_bind, after_issue, after_dateNow, exec]
  split
  · exact h _ _ rfl rfl
  · simp only [readPolicy, after_bind, after_issue, after_dateNow, after_pure, exec]
    exact h _ _ rfl rfl

theorem after_settleIf {broker : Bool} {r : CargoRequest} {fare : Option TripFareValues}
    {Q : CargoRequest → Store → Prop}
    (h : ∀ e s', (e = r ∨ ∃ percent, e = settled r fare percent) → s'.toTables = s.toTables →
      s'.clock = s.clock → Q e s') :
    (settleIf broker r fare).After exec s Q E := by
  cases broker with
  | false => exact h r s (.inl rfl) rfl rfl
  | true =>
      simp only [settleIf, if_true, settleBroker, after_bind, after_pure]
      exact after_getPolicy fun percent s' hT hc => h _ s' (.inr ⟨percent, rfl⟩) hT hc

/-! ### Loops of saves -/

/-- The store after a save and the notices that follow it, in the order they were sent. -/
def savedAndTold (s : Store) (e : CargoRequest) (notices : List Notice) : Store :=
  { storeSaved s e with outbox := notices.reverse ++ s.outbox }

/-- What is left of `s` once the rows in `done` were each saved as `f` of them. -/
structure SavedEach (f : CargoRequest → CargoRequest) (notices : CargoRequest → List Notice)
    (done : List CargoRequest) (s s' : Store) : Prop where
  clock : s'.clock = s.clock
  listings : s'.listings = s.listings
  fares : s'.fares = s.fares
  outbox : s'.outbox = (done.flatMap notices).reverse ++ s.outbox
  rows : Rewrites (fun r => if r ∈ done then written s.clock f r else r) s.toTables s'.toTables

theorem SavedEach.snoc {f : CargoRequest → CargoRequest} {notices : CargoRequest → List Notice}
    {done : List CargoRequest} {s s' : Store} {x : CargoRequest}
    (h : SavedEach f notices done s s') (hid : ∀ r, (f r).id = r.id) (hx : Has s.toTables x)
    (hnew : x ∉ done) :
    SavedEach f notices (done ++ [x]) s (savedAndTold s' (f x) (notices x)) := by
  have hx' : Has s'.toTables x := by
    rw [Has, h.rows x.id, hx]
    simp [hnew]
  refine ⟨h.clock, h.listings, h.fares, ?_, fun id => ?_⟩
  · show (notices x).reverse ++ s'.outbox = _
    simp [h.outbox, List.flatMap_append]
  · show (saved s'.toTables s'.clock (f x)).requests.get id = _
    rw [rewrites_saved hx' (hid x) id, h.rows id, h.clock, Option.map_map]
    cases hr : s.requests.get id with
    | none => rfl
    | some r =>
        by_cases hrx : r = x
        · subst hrx
          simp [onlyRow, hnew]
        · have hne : r.id ≠ x.id := fun he => hrx ((has_of_get hr).unique hx he)
          have hne' : (written s.clock f r).id ≠ x.id := by rwa [written_id hid]
          by_cases hd : r ∈ done <;> simp [onlyRow, hd, hne, hne', hrx]

/-- **A loop of saves over rows read once.**  Each turn saves its row as `f` of it and sends the
row's notices; no index refuses a save while only rows of the list have changed. -/
theorem after_saveEach {xs : List CargoRequest} {body : CargoRequest → Trip Unit}
    (f : CargoRequest → CargoRequest) (notices : CargoRequest → List Notice)
    (hid : ∀ r, (f r).id = r.id) (hxs : ∀ x ∈ xs, Has s.toTables x)
    (hnodup : (xs.map (·.id)).Nodup)
    (hbody : ∀ x ∈ xs, ∀ s', s'.clock = s.clock → s'.tripIndexRefuses (f x) = false →
      (body x).After exec s' (fun _ s'' => s'' = savedAndTold s' (f x) (notices x)) (fun _ => False))
    (hfree : ∀ x ∈ xs, ∀ done s', SavedEach f notices done s s' →
      s'.tripIndexRefuses (f x) = false)
    {Q : Unit → Store → Prop} (h : ∀ s', SavedEach f notices xs s s' → Q () s') :
    (Prog.forEach body xs).After exec s Q E := by
  have hloop : (Prog.forEach body xs).After exec s
      (fun _ s' => ∃ done, done ++ [] = xs ∧ SavedEach f notices done s s') (fun _ => False) := by
    refine after_forEach
      (fun rest s' => ∃ done, done ++ rest = xs ∧ SavedEach f notices done s s') ?_
      ⟨[], rfl, rfl, rfl, rfl, rfl, fun id => by simp⟩
    rintro x rest s' _ ⟨done, hdone, hsaved⟩
    have hmem : x ∈ xs := by simp [← hdone]
    have hnew : x ∉ done := by
      intro hin
      rw [← hdone, List.map_append, List.map_cons, List.nodup_append] at hnodup
      exact hnodup.2.2 x.id (List.mem_map_of_mem hin) x.id (by simp) rfl
    refine after_mono (hbody x hmem s' hsaved.clock (hfree x hmem done s' hsaved))
      (fun _ s'' hs'' => ?_) (fun _ hf => hf)
    subst hs''
    exact ⟨done ++ [x], by simp [← hdone], hsaved.snoc hid (hxs x hmem) hnew⟩
  refine after_mono hloop (fun _ s' hI => ?_) (fun _ hf => hf.elim)
  obtain ⟨done, hdone, hsaved⟩ := hI
  rw [List.append_nil] at hdone
  exact h s' (hdone ▸ hsaved)

/-- A row that is not on a trip meets no index. -/
theorem free_of_not_onTrip {T : Tables} {e : CargoRequest} (h : e.onTrip = false) :
    T.tripIndexRefuses e = false := by
  simp [Tables.tripIndexRefuses, h]

/-- A new row of a load and a driver that have none. -/
theorem after_insertRequest {w : Writer} {e : CargoRequest} {Q : CargoRequest → Store → Prop}
    (hnone : s.ofDriver e.listingId e.driverUserId = none) (htrip : e.onTrip = false)
    (h : Q (e.inserted s.requests.fresh s.clock)
      (s.setTables (s.putRequest (e.inserted s.requests.fresh s.clock)))) :
    (insertRequest w e).After exec s Q E := by
  have hdriver : s.driverIndexRefuses (e.inserted s.requests.fresh s.clock) = false := by
    rw [Tables.driverIndexRefuses, ← Bool.not_eq_true, List.any_eq_true]
    rintro ⟨r, hr, hp⟩
    exact (List.find?_eq_none.mp hnone) r hr hp
  have hindex : s.tripIndexRefuses (e.inserted s.requests.fresh s.clock) = false :=
    free_of_not_onTrip htrip
  simp only [insertRequest, after_bind, after_issue, after_orThrow, exec, Tables.insertRequest,
    hdriver, hindex]
  exact ⟨fun hc => (by cases hc), fun a ha => by cases ha; exact h⟩

/-! ### Statuses of a load -/

/-- The listings once a load's status was set at `t`. -/
def listingsSet (T : Tables) (lid : ℕ) (status : CargoListingStatus) (t : ℕ) : Tables :=
  (T.changeStatus lid status t).2

@[simp] theorem listingsSet_requests (T : Tables) (lid : ℕ) (status : CargoListingStatus) (t : ℕ) :
    (listingsSet T lid status t).requests = T.requests := by
  unfold listingsSet Tables.changeStatus
  split
  · rfl
  · split <;> rfl

@[simp] theorem listingsSet_fares (T : Tables) (lid : ℕ) (status : CargoListingStatus) (t : ℕ) :
    (listingsSet T lid status t).fares = T.fares := by
  unfold listingsSet Tables.changeStatus
  split
  · rfl
  · split <;> rfl

/-- Setting a status looks at the listings only. -/
theorem listingsSet_congr {T U : Tables} (h : T.listings = U.listings) (lid : ℕ)
    (status : CargoListingStatus) (t : ℕ) :
    (listingsSet T lid status t).listings = (listingsSet U lid status t).listings := by
  unfold listingsSet Tables.changeStatus
  rw [h]
  cases U.listings.get lid with
  | none => exact h
  | some l =>
      show (if _ then (false, T) else _ : Bool × Tables).2.listings = _
      by_cases hs : l.status = status
      · simp only [hs, if_true]
        exact h
      · simp only [hs, if_false, Tables.putListing, h]

/-- What setting a status leaves of each load. -/
def statusSet (lid : ℕ) (status : CargoListingStatus) (t : ℕ) (l : CargoListing) : CargoListing :=
  if l.id = lid ∧ l.status ≠ status then
    { l with status := status, takenAt := if status = .taken then some t else none }
  else l

theorem listingsSet_get (T : Tables) (lid : ℕ) (status : CargoListingStatus) (t id : ℕ) :
    (listingsSet T lid status t).listings.get id =
      (T.listings.get id).map (statusSet lid status t) := by
  unfold listingsSet Tables.changeStatus
  cases hl : T.listings.get lid with
  | none =>
      cases hx : T.listings.get id with
      | none => simp
      | some x =>
          have hne : ¬x.id = lid := by
            rintro rfl
            rw [Table.key_of_get hx] at hl
            simp [hl] at hx
          simp [statusSet, hne]
  | some l =>
      have hlid : l.id = lid := Table.key_of_get hl
      by_cases hs : l.status = status
      · simp only [hs, if_true]
        cases hx : T.listings.get id with
        | none => rfl
        | some x =>
            have hsame : x.id = lid → x.status = status := by
              rintro rfl
              rw [Table.key_of_get hx, hx] at hl
              cases hl
              exact hs
            by_cases hxl : x.id = lid <;> simp [statusSet, hxl]
            exact fun hne => absurd (hsame hxl) hne
      · simp only [hs, if_false]
        show (T.listings.put _).get id = _
        rw [Table.get_put]
        by_cases hid : id = l.id
        · subst hid
          rw [if_pos rfl, hlid, hl]
          simp [statusSet, hlid, hs]
        · rw [if_neg hid]
          cases hx : T.listings.get id with
          | none => rfl
          | some x =>
              have hne : ¬x.id = lid := by
                rw [Table.key_of_get hx, ← hlid]
                exact hid
              simp [statusSet, hne]

/-- `setStatus(TAKEN)` of the load's own publisher. -/
theorem after_setStatus_taken {trip : Option ℕ} {user lid : ℕ} {l : CargoListing}
    {Q : Unit → Store → Prop} (hl : s.listings.get lid = some l) (hpub : l.publisherUserId = user)
    (h : Q () (s.setTables (listingsSet s.toTables lid .taken s.clock))) :
    (setStatus trip user lid .taken).After exec s Q E := by
  have hfound : (s.listings.get lid).filter (·.publisherUserId = user) = some l := by
    simp [hl, hpub]
  have hlid : l.id = lid := Table.key_of_get hl
  simp only [setStatus, after_bind, after_issue, after_orThrow, after_runIf, after_dateNow,
    after_pure, exec, hfound]
  refine ⟨fun hc => (by cases hc), fun l' hl' => ?_⟩
  cases hl'
  rw [hlid]
  refine ⟨fun hc => (by cases hc), fun _ => ⟨fun hc => (by cases hc), fun _ =>
    ⟨fun hchanged => ⟨fun hnone => ?_, fun _ _ => h⟩, fun _ => h⟩⟩⟩
  -- the row was found before the update and an update removes no row
  have hget := listingsSet_get s.toTables lid .taken s.clock lid
  change ((listingsSet s.toTables lid .taken s.clock).listings.get lid).filter _ = none at hnone
  rw [hget, hl] at hnone
  simp [statusSet, hpub] at hnone
  split_ifs at hnone <;> simp_all

/-- `setStatus` by anyone: refused, or done under its guards. -/
theorem after_setStatus {trip : Option ℕ} {user lid : ℕ} {status : CargoListingStatus}
    {Q : Unit → Store → Prop} (hE : E s)
    (h : (status = .opened →
        s.activeTrip lid s.clock = false ∧ s.anyDelivered lid = false) →
      Q () (s.setTables (listingsSet s.toTables lid status s.clock)) ∧
        E (s.setTables (listingsSet s.toTables lid status s.clock))) :
    (setStatus trip user lid status).After exec s Q E := by
  simp only [setStatus, after_bind, after_issue, after_orThrow, after_runIf, after_dateNow,
    after_refuseIf, after_pure, exec]
  refine ⟨fun _ => hE, fun l hl => ?_⟩
  have hlid : l.id = lid := by
    simp only [Option.filter_eq_some_iff] at hl
    exact Table.key_of_get hl.1
  rw [hlid]
  cases status with
  | taken =>
      have hq := h (fun hc => (by cases hc))
      exact ⟨fun hc => (by cases hc), fun _ => ⟨fun hc => (by cases hc), fun _ =>
        ⟨fun _ => ⟨fun _ => hq.2, fun _ _ => hq.1⟩, fun _ => hq.1⟩⟩⟩
  | opened =>
      refine ⟨fun _ => ⟨fun _ => hE, fun hactive => ⟨fun _ => ⟨fun _ => hE, fun hdel => ?_⟩,
        fun hc => (by cases hc)⟩⟩, fun hc => (by cases hc)⟩
      have hq := h fun _ => ⟨by simpa using hactive, by simpa using hdel⟩
      exact ⟨fun _ => ⟨fun _ => hq.2, fun _ _ => hq.1⟩, fun _ => hq.1⟩

/-! ### Starting a trip -/

/-- What `completeAssignment` of `k` at `t` leaves of each request. -/
def othersTurnedDown (t : ℕ) (k r : CargoRequest) : CargoRequest :=
  if r.listingId = k.listingId ∧ r.status = .pending ∧ r.id ≠ k.id then
    written t (CargoRequest.turnedDown t) r
  else r

/-- What `completeAssignment` of `k` at `t` leaves. -/
structure Assigned (t : ℕ) (k : CargoRequest) (T T' : Tables) : Prop where
  listings : T'.listings = (listingsSet T k.listingId .taken t).listings
  fares : T'.fares = T.fares
  rows : Rewrites (othersTurnedDown t k) T T'

theorem after_completeAssignment {k : CargoRequest} {l : CargoListing} {Q : Unit → Store → Prop}
    (hl : s.listings.get k.listingId = some l) (hpub : l.publisherUserId = k.companyUserId)
    (h : ∀ s', s'.clock = s.clock → Assigned s.clock k s.toTables s'.toTables → Q () s') :
    (completeAssignment k).After exec s Q E := by
  simp only [completeAssignment, after_bind]
  refine after_setStatus_taken hl hpub ?_
  simp only [after_issue, exec]
  refine after_saveEach (CargoRequest.turnedDown s.clock) (fun _ => []) (fun _ => rfl) ?_ ?_ ?_ ?_ ?_
  · intro x hx
    exact (mem_otherPending.mp hx).1
  · exact nodup_filter_ids _ _
  · intro x _ s' hclock hfree
    simp only [after_bind, after_dateNow]
    rw [hclock]
    exact after_saveRequest hfree rfl
  · intro x _ done s' _
    exact free_of_not_onTrip rfl
  · intro s' hsaved
    refine h s' hsaved.clock ⟨hsaved.listings, ?_, fun id => ?_⟩
    · exact hsaved.fares.trans (by simp)
    · rw [hsaved.rows id]
      simp only [setTables_toTables, listingsSet_requests]
      cases hr : s.requests.get id with
      | none => rfl
      | some r =>
          have hmem : r ∈ (listingsSet s.toTables k.listingId .taken s.clock).otherPending
              k.listingId k.id ↔
              r.listingId = k.listingId ∧ r.status = .pending ∧ r.id ≠ k.id := by
            rw [mem_otherPending]
            have hhas : Has (listingsSet s.toTables k.listingId .taken s.clock) r := by
              rw [Has, listingsSet_requests]
              exact has_of_get hr
            simp [hhas]
          simp only [Option.map_some, othersTurnedDown, hmem]
          rfl

/-- What `reviveTurnedDown` of `k` leaves of each request. -/
def takenOverRevived (t : ℕ) (k : CargoRequest) (since : ℕ) (r : CargoRequest) : CargoRequest :=
  if r.listingId = k.listingId ∧ r.status = .rejected ∧ r.id ≠ k.id ∧
      r.decidedAt.any (since ≤ ·) = true then
    written t CargoRequest.waitingAgain r
  else r

theorem after_reviveTurnedDown {k : CargoRequest} {since : ℕ} {Q : Unit → Store → Prop}
    (h : ∀ s', s'.clock = s.clock → s'.listings = s.listings → s'.fares = s.fares →
      Rewrites (takenOverRevived s.clock k since) s.toTables s'.toTables → Q () s') :
    (reviveTurnedDown k (some since)).After exec s Q E := by
  simp only [reviveTurnedDown, after_bind, after_issue, exec]
  refine after_saveEach CargoRequest.waitingAgain (fun _ => []) (fun _ => rfl) ?_ ?_ ?_ ?_ ?_
  · intro x hx
    exact (mem_takenOver.mp hx).1
  · exact nodup_filter_ids _ _
  · intro x _ s' hclock hfree
    exact after_saveRequest hfree rfl
  · intro x _ done s' _
    exact free_of_not_onTrip rfl
  · intro s' hsaved
    refine h s' hsaved.clock hsaved.listings hsaved.fares fun id => ?_
    rw [hsaved.rows id]
    cases hr : s.requests.get id with
    | none => rfl
    | some r =>
        have hhas := has_of_get hr
        simp only [Option.map_some, takenOverRevived, mem_takenOver, hhas, true_and]

end TransportBackend.TripEffect
