import TransportBackend.TripInterleaving

/-!
# A load under interleaving

A load's status is meant to change through the conditional update `changeStatus` only.  But
`announceNow`, `autoAnnounce` and `refreshPublisherContact` save the whole row they had loaded, so
they write back the status of that moment, and `setStatus(OPEN)` looks for trips in one step and
updates in another.

* `assigned` — `completeAssignment` of a request has run and the request is still on its trip, read
  off the trace;
* `disciplined_loadProgram` — every call of the listing service saves a load with the status it read;
* `load_stays_taken` — **a load on a trip stays taken**, in every run in which a saved load still has
  the status its call had read and no load with a trip is opened.
-/

namespace TransportBackend.LoadInterleaving

open TransportBackend.AtomicProgram
open TransportBackend.AtomicProgram.Prog
open TransportBackend.InterleavedRun
open TransportBackend.KeyedTable
open TransportBackend.TripStore
open TransportBackend.ListingService
open TransportBackend.TripService
open TransportBackend.TripRun
open TransportBackend.TripEffect
open TransportBackend.TripInterleaving

/-! ### The calls -/

/-- The calls that write loads, and the two that start a trip. -/
inductive LoadCall where
  | announceNow (recipients : Bool) (userId listingId : ℕ)
  | autoAnnounce (recipients : CargoListing → Bool) (suggestions : List Suggestion) (userId : ℕ)
  | refreshPublisherContact (userId : ℕ) (before after : PublisherContact)
  | setStatus (userId listingId : ℕ) (status : CargoListingStatus)
  | accept (broker : Bool) (companyUserId requestId : ℕ) (deal : Deal)
  | acceptOffer (driverUserId requestId : ℕ)

/-- What a call runs. -/
def loadProgram (cfg : Services) : LoadCall → Trip Unit
  | .announceNow recipients user listing => announceNow recipients user listing
  | .autoAnnounce recipients suggestions user => autoAnnounce recipients suggestions user
  | .refreshPublisherContact user before after => refreshPublisherContact user before after
  | .setStatus user listing status => setStatus none user listing status
  | .accept broker company id deal => unanswered (TripService.decide cfg broker company id true deal)
  | .acceptOffer driver id => unanswered (respondOffer driver id true)

section Rules

variable {cfg : Services} {S : Scope cfg}

theorem disciplined_attempt {α : Type} {p : Trip α} {Q : Except ServiceError α → Prop}
    (h : Disciplined S p (fun a => Q (.ok a))) (herr : ∀ e, Q (.error e)) :
    Disciplined S p.attempt Q := within_attempt h herr

theorem disciplined_publish (user : ℕ) (suggestion : Suggestion) :
    Disciplined S (publish user suggestion) (fun _ => True) := by
  simp only [publish, disciplined_bind, disciplined_issue]
  refine ⟨trivial, fun existing _ => ?_⟩
  cases existing with
  | none =>
      simp only [publishListing, disciplined_bind, disciplined_dateNow, disciplined_issue,
        disciplined_orThrow, disciplined_pure]
      exact fun _ => ⟨trivial, fun _ _ _ _ => trivial⟩
  | some listing =>
      dsimp only
      split
      · exact disciplined_announceNow _ _ _
      · trivial

theorem disciplined_autoAnnounce (recipients : CargoListing → Bool)
    (suggestions : List Suggestion) (user : ℕ) :
    Disciplined S (autoAnnounce recipients suggestions user) (fun _ => True) := by
  simp only [autoAnnounce, disciplined_bind]
  refine disciplined_forEach (fun suggestion _ => ?_) ?_
  · simp only [announceSuggestion, disciplined_bind, disciplined_issue, disciplined_runIf]
    refine ⟨trivial, fun _ _ => ⟨fun _ => ?_, fun _ => trivial⟩⟩
    refine disciplined_attempt (disciplined_mono (disciplined_publish user suggestion) ?_) ?_
    · exact fun _ _ => trivial
    · intro e
      simp only [disciplined_refuseIf]
      exact fun _ => trivial
  · simp only [disciplined_issue]
    refine ⟨trivial, fun queue _ => disciplined_forEach (fun listing _ => ?_) trivial⟩
    simp only [disciplined_runIf]
    exact ⟨fun _ => disciplined_saveAnnounced listing trivial, fun _ => trivial⟩

theorem refreshed_status {before after : PublisherContact} {l l' : CargoListing}
    (h : refreshed before after l = some l') : l'.id = l.id ∧ l'.status = l.status := by
  unfold refreshed at h
  extract_lets phones companyName at h
  split at h
  · cases h
  · cases h
    exact ⟨rfl, rfl⟩

theorem disciplined_refreshPublisherContact (user : ℕ) (before after : PublisherContact) :
    Disciplined S (refreshPublisherContact user before after) (fun _ => True) := by
  simp only [refreshPublisherContact, disciplined_runIf, disciplined_bind, disciplined_issue]
  refine ⟨fun _ => ⟨trivial, fun loads _ => disciplined_forEach (fun l _ => ?_) trivial⟩,
    fun _ => trivial⟩
  cases hnew : refreshed before after l with
  | none => trivial
  | some l' =>
      simp only [disciplined_bind, disciplined_issue, disciplined_pure]
      exact ⟨refreshed_status hnew, fun _ _ => trivial⟩

/-- **Every call saves a load with the status it read.** -/
theorem disciplined_loadProgram (call : LoadCall) :
    Disciplined S (loadProgram cfg call) (fun _ => True) := by
  cases call with
  | announceNow recipients user lid => exact disciplined_announceNow recipients user lid
  | autoAnnounce recipients suggestions user =>
      exact disciplined_autoAnnounce recipients suggestions user
  | refreshPublisherContact user before after =>
      exact disciplined_refreshPublisherContact user before after
  | setStatus user lid status => exact disciplined_setStatus (fun k hk => (by cases hk)) trivial
  | accept broker company id deal =>
      exact disciplined_unanswered (disciplined_decide broker company id true deal)
  | acceptOffer driver id =>
      exact disciplined_unanswered (disciplined_respondOffer driver id true)

end Rules

/-! ### Reading a trace -/

/-- The entity a request was saved as at this event. -/
def savedAs : Event Resp → Option CargoRequest
  | .act _ (.saveRequest _ _ e) .saved => some e
  | _ => none

/-- The request whose `completeAssignment` updated the load at this event. -/
def completes : Event Resp → Option ℕ
  | .act _ (.changeStatus (some k) _ _ _) _ => some k
  | _ => none

/-- The last save of this request put it on its trip. -/
def onTripSince : List (Event Resp) → ℕ → Bool
  | [], _ => false
  | e :: tr, id =>
      match (savedAs e).filter (·.id = id) with
      | some x => x.onTrip
      | none => onTripSince tr id

/-- `completeAssignment` of this request has run on its trip, and every save of the request since
then left it on its trip. -/
def assigned : List (Event Resp) → ℕ → Prop
  | [], _ => False
  | e :: tr, id =>
      (completes e = some id ∧ onTripSince tr id = true) ∨
        (assigned tr id ∧ ∀ x ∈ savedAs e, x.id = id → x.onTrip = true)

instance decidableAssigned : (tr : List (Event Resp)) → (id : ℕ) → Decidable (assigned tr id)
  | [], _ => .isFalse fun h => h
  | e :: tr, id =>
      have := decidableAssigned tr id
      inferInstanceAs (Decidable ((completes e = some id ∧ onTripSince tr id = true) ∨
        (assigned tr id ∧ ∀ x ∈ savedAs e, x.id = id → x.onTrip = true)))

/-! ### The loads -/

variable {cfg : Services} {s : Store} {l : CargoListing}

/-- What one command makes of a load: nothing, the entity saved, or the status set. -/
theorem exec_load (c : TripCmd) {id : ℕ} (hl : s.listings.get id = some l) :
    ∃ l', (exec c s).2.listings.get id = some l' ∧ (l'.status = l.status ∨
      (∃ read, c = .saveListing read l' ∧ l'.id = id) ∨
      ∃ trip status now, c = .changeStatus trip id status now ∧ l'.status = status) := by
  cases c with
  | saveListing read e =>
      show ∃ l', (s.listings.put e).get id = some l' ∧ _
      rw [Table.get_put]
      by_cases hid : id = e.id
      · exact ⟨e, if_pos hid, .inr (.inl ⟨read, rfl, hid.symm⟩)⟩
      · exact ⟨l, by rw [if_neg hid]; exact hl, .inl rfl⟩
  | insertListing e =>
      simp only [exec, Tables.insertListing]
      split
      · exact ⟨l, hl, .inl rfl⟩
      · refine ⟨l, ?_, .inl rfl⟩
        show (s.listings.put _).get id = some l
        rw [Table.get_put_of_ne]
        · exact hl
        · rintro rfl
          rw [Table.get_fresh] at hl
          cases hl
  | changeStatus trip lid status now =>
      simp only [exec, Tables.changeStatus]
      cases hget : s.listings.get lid with
      | none => exact ⟨l, hl, .inl rfl⟩
      | some l₀ =>
          dsimp only
          split
          · exact ⟨l, hl, .inl rfl⟩
          · show ∃ l', (s.listings.put _).get id = some l' ∧ _
            have hlid : l₀.id = lid := Table.key_of_get hget
            rw [Table.get_put]
            by_cases hid : id = l₀.id
            · rw [if_pos hid]
              exact ⟨_, rfl, .inr (.inr ⟨trip, status, now, by rw [hid, hlid], rfl⟩)⟩
            · exact ⟨l, by rw [if_neg hid]; exact hl, .inl rfl⟩
  | insertRequest w e =>
      simp only [exec, Tables.insertRequest]
      split <;> exact ⟨l, hl, .inl rfl⟩
  | saveRequest w read e =>
      simp only [exec, Tables.saveRequest]
      split <;> exact ⟨l, hl, .inl rfl⟩
  | saveFare isNew row =>
      simp only [exec, Tables.saveFare]
      split <;> exact ⟨l, hl, .inl rfl⟩
  | _ => exact ⟨l, hl, .inl rfl⟩

/-- An update that takes a load leaves it taken. -/
theorem exec_taken {id : ℕ} (hl : s.listings.get id = some l) (trip : Option ℕ) (now : ℕ) :
    ∃ l', (exec (.changeStatus trip id .taken now) s).2.listings.get id = some l' ∧
      l'.status = .taken := by
  simp only [exec, Tables.changeStatus, hl]
  split
  · rename_i htaken
    exact ⟨l, hl, htaken⟩
  · show ∃ l', (s.listings.put _).get id = some l' ∧ _
    rw [Table.get_put, if_pos (Table.key_of_get hl).symm]
    exact ⟨_, rfl, rfl⟩

/-! ### The rows -/

/-- Every row is one of the start, on the load it had there; no row is created. -/
def startRows (cfg : Services) (s₀ : Store) : Scope cfg where
  known r := (s₀.requests.get r.id).map (·.listingId) = some r.listingId
  creates := False
  saved := by
    intro w read e hknown hw stored now
    show (s₀.requests.get e.id).map (·.listingId) = some e.listingId
    rw [hw.id, hw.listingId]
    exact hknown
  inserted hno := hno.elim

/-- What is stored under an id after a command of these calls: the entity saved, or what was
there. -/
theorem savedAs_cell {s₀ : Store} {c : TripCmd} (hc : Issues (startRows cfg s₀) c) (pid id : ℕ) :
    (∃ x, savedAs (.act pid c (exec c s).1) = some x ∧ x.id = id ∧
      (exec c s).2.requests.get id = some (x.stamped (s.requests.get id) s.clock)) ∨
    ((∀ x ∈ savedAs (.act pid c (exec c s).1), x.id ≠ id) ∧
      (exec c s).2.requests.get id = s.requests.get id) := by
  by_cases hsave : ∃ w read e, c = .saveRequest w read e
  · obtain ⟨w, read, e, rfl⟩ := hsave
    cases hfree : s.tripIndexRefuses e with
    | true =>
        simp only [exec, Tables.saveRequest, hfree, if_true]
        exact .inr ⟨fun x hx => (by cases hx), rfl⟩
    | false =>
        simp only [exec, Tables.saveRequest, hfree]
        by_cases hid : e.id = id
        · subst hid
          exact .inl ⟨e, rfl, rfl, Table.get_put_self _ (e.stamped (s.requests.get e.id) s.clock)⟩
        · refine .inr ⟨fun x hx => ?_, Table.get_put_of_ne (Ne.symm hid)⟩
          cases hx
          exact hid
  · rcases exec_cell c s id with hkeep | ⟨w, read, e, rfl, _⟩ | ⟨w, e, rfl, _⟩
    · refine .inr ⟨fun x hx => ?_, hkeep⟩
      cases c with
      | saveRequest w read e => exact absurd ⟨w, read, e, rfl⟩ hsave
      | _ => cases hx
    · exact absurd ⟨w, read, e, rfl⟩ hsave
    · exact hc.1.elim

/-! ### The invariant of a run -/

/-- The save of a load at an event: the row its call had read and the entity. -/
def listingSave : Event Resp → Option (CargoListing × CargoListing)
  | .act _ (.saveListing read e) _ => some (read, e)
  | _ => none

/-- The load an event opens again. -/
def opens : Event Resp → Option ℕ
  | .act _ (.changeStatus _ lid .opened _) _ => some lid
  | _ => none

/-- A load is saved with the status it still has, and opened only when no request of it is on a
trip. -/
def LoadKept (_ : List (Event Resp)) (b : Conf Resp ServiceError Store) (e : Event Resp) : Prop :=
  (∀ x ∈ listingSave e, ∀ l ∈ b.store.listings.get x.2.id, l.status = x.1.status) ∧
    ∀ lid ∈ opens e, ∀ r ∈ b.store.requests.rows, r.listingId = lid → r.onTrip = false

instance (tr : List (Event Resp)) (b : Conf Resp ServiceError Store) (e : Event Resp) :
    Decidable (LoadKept tr b e) :=
  inferInstanceAs (Decidable
    ((∀ x ∈ listingSave e, ∀ l ∈ b.store.listings.get x.2.id, l.status = x.1.status) ∧
      ∀ lid ∈ opens e, ∀ r ∈ b.store.requests.rows, r.listingId = lid → r.onTrip = false))

/-- The request is on its trip and its load is taken. -/
def OnTakenLoad (s : Store) (id : ℕ) : Prop :=
  ∃ r l, s.requests.get id = some r ∧ r.onTrip = true ∧ s.listings.get r.listingId = some l ∧
    l.status = .taken

/-- What a run keeps: the loads of the start are there, a request last saved on its trip is on it,
and the load of an assigned request is taken. -/
structure TakenKept (s₀ : Store) (tr : List (Event Resp)) (s : Store) : Prop where
  present : ∀ id, (s₀.listings.get id).isSome = true → (s.listings.get id).isSome = true
  onTrip : ∀ id, onTripSince tr id = true → ∃ r, s.requests.get id = some r ∧ r.onTrip = true
  taken : ∀ id, assigned tr id → OnTakenLoad s id

section Step

variable {s₀ : Store} {tr : List (Event Resp)} {b : Conf Resp ServiceError Store} {c : TripCmd}

theorem TakenKept.quiet (h : TakenKept s₀ tr s) {s' : Store} {e : Event Resp}
    (hT : s'.toTables = s.toTables) (hsaved : savedAs e = none) (hdone : completes e = none) :
    TakenKept s₀ (e :: tr) s' := by
  have hon : ∀ id, onTripSince (e :: tr) id = onTripSince tr id := by
    intro id
    simp [onTripSince, hsaved]
  refine ⟨fun id hid => ?_, fun id hid => ?_, fun id hid => ?_⟩
  · rw [hT]
    exact h.present id hid
  · rw [hT]
    exact h.onTrip id (by rwa [hon] at hid)
  · rw [OnTakenLoad, hT]
    rcases hid with ⟨hc, _⟩ | ⟨hassigned, _⟩
    · rw [hdone] at hc
      cases hc
    · exact h.taken id hassigned

/-- The load of a row after a command: a saved row keeps its load. -/
theorem sameLoad (hrows : ∀ r, Has s.toTables r → (startRows cfg s₀).known r)
    {r r' : CargoRequest} (hr : Has s.toTables r) (hr' : (startRows cfg s₀).known r')
    (hid : r'.id = r.id) : r'.listingId = r.listingId := by
  have hstart : (s₀.requests.get r.id).map (·.listingId) = some r.listingId := hrows r hr
  have hstart' : (s₀.requests.get r'.id).map (·.listingId) = some r'.listingId := hr'
  rw [hid, hstart] at hstart'
  exact (Option.some.inj hstart').symm

/-- A taken load of a request on its trip stays taken. -/
theorem taken_exec (hc : Issues (startRows cfg s₀) c) {pid id : ℕ}
    (hok : LoadKept tr b (.act pid c (exec c b.store).1)) {r : CargoRequest}
    (hr : b.store.requests.get id = some r) (htrip : r.onTrip = true)
    (hl : b.store.listings.get r.listingId = some l) (htaken : l.status = .taken) :
    ∃ l', (exec c b.store).2.listings.get r.listingId = some l' ∧ l'.status = .taken := by
  obtain ⟨l', hl', hcase⟩ := exec_load c hl
  refine ⟨l', hl', ?_⟩
  rcases hcase with hsame | ⟨read, rfl, hid⟩ | ⟨trip, status, now, rfl, hstatus⟩
  · rw [hsame, htaken]
  · have hread := hok.1 (read, l') rfl l (by rw [hid]; exact hl)
    rw [hc.2, ← hread, htaken]
  · cases status with
    | taken => exact hstatus
    | opened =>
        have hno := hok.2 r.listingId rfl r (Table.mem_of_get hr) rfl
        rw [htrip] at hno
        cases hno

/-- The update of `completeAssignment` takes the load of its request. -/
theorem completed_exec
    (hfk : ∀ r, Has s₀.toTables r → (s₀.listings.get r.listingId).isSome = true)
    (hrows : ∀ r, Has b.store.toTables r → (startRows cfg s₀).known r)
    (h : TakenKept s₀ tr b.store) (hc : Issues (startRows cfg s₀) c) {pid id : ℕ}
    (hdone : completes (.act pid c (exec c b.store).1) = some id)
    (hon : onTripSince tr id = true) : OnTakenLoad (exec c b.store).2 id := by
  obtain ⟨r, hr, htrip⟩ := h.onTrip id hon
  cases c with
  | changeStatus trip lid status now =>
      cases trip with
      | none => cases hdone
      | some k =>
          cases hdone
          obtain ⟨rfl, r₀, hknown, hid₀, hlid₀⟩ := hc
          have hload : r₀.listingId = r.listingId :=
            sameLoad hrows (has_of_get hr) hknown (hid₀.trans (Table.key_of_get hr).symm)
          -- the load was there at the start, and loads stay
          obtain ⟨x, hx, hxl⟩ := Option.map_eq_some_iff.mp hknown
          have hpresent := h.present _ (hfk x (has_of_get hx))
          rw [hxl, hlid₀] at hpresent
          obtain ⟨l, hl⟩ := Option.isSome_iff_exists.mp hpresent
          obtain ⟨l', hl', htaken⟩ := exec_taken hl (some id) now
          rcases exec_row (.changeStatus (some id) lid .taken now) hr with hkeep | ⟨_, _, _, hsave, _⟩
          · refine ⟨r, l', hkeep, htrip, ?_, htaken⟩
            rw [← hload, hlid₀]
            exact hl'
          · cases hsave
  | _ => cases hdone

theorem TakenKept.act (hfk : ∀ r, Has s₀.toTables r → (s₀.listings.get r.listingId).isSome = true)
    (hrows : ∀ r, Has b.store.toTables r → (startRows cfg s₀).known r)
    (h : TakenKept s₀ tr b.store) (hc : Issues (startRows cfg s₀) c) {pid : ℕ}
    (hok : LoadKept tr b (.act pid c (exec c b.store).1)) :
    TakenKept s₀ (.act pid c (exec c b.store).1 :: tr) (exec c b.store).2 := by
  have hrows' := known_exec hc hrows
  refine ⟨fun id hid => ?_, fun id hid => ?_, fun id hid => ?_⟩
  · obtain ⟨l, hl⟩ := Option.isSome_iff_exists.mp (h.present id hid)
    obtain ⟨l', hl', _⟩ := exec_load c hl
    rw [hl']
    rfl
  · rcases savedAs_cell (s := b.store) hc pid id with ⟨x, hx, hxid, hget⟩ | ⟨hno, hget⟩
    · have hsome : (savedAs (.act pid c (exec c b.store).1)).filter (·.id = id) = some x := by
        rw [hx]
        simp [hxid]
      rw [onTripSince, hsome] at hid
      exact ⟨_, hget, hid⟩
    · have hnone : (savedAs (.act pid c (exec c b.store).1)).filter (·.id = id) = none := by
        simpa [Option.filter_eq_none_iff] using hno
      rw [onTripSince, hnone] at hid
      rw [hget]
      exact h.onTrip id hid
  · rcases hid with ⟨hdone, hon⟩ | ⟨hassigned, hkept⟩
    · exact completed_exec hfk hrows h hc hdone hon
    · obtain ⟨r, l, hr, htrip, hl, htaken⟩ := h.taken id hassigned
      obtain ⟨l', hl', htaken'⟩ := taken_exec hc hok hr htrip hl htaken
      rcases savedAs_cell (s := b.store) hc pid id with ⟨x, hx, hxid, hget⟩ | ⟨hno, hget⟩
      · have hknown : (startRows cfg s₀).known (x.stamped (b.store.requests.get id) b.store.clock) :=
          hrows' _ (has_of_get hget)
        have hsame : x.listingId = r.listingId :=
          sameLoad hrows (has_of_get hr) hknown (hxid.trans (Table.key_of_get hr).symm)
        refine ⟨_, l', hget, hkept x hx hxid, ?_, htaken'⟩
        show (exec c b.store).2.listings.get x.listingId = some l'
        rw [hsame]
        exact hl'
      · exact ⟨r, l', hget.trans hr, htrip, hl', htaken'⟩

end Step

/-- **A load on a trip is never open again**, in every run in which a saved load still has the
status its call had read and no load with a trip is opened. -/
theorem load_stays_taken (cfg : Services) {s₀ : Store}
    (hfk : ∀ r ∈ s₀.requests.rows, (s₀.listings.get r.listingId).isSome = true)
    {tr : List (Event Resp)} {b : Conf Resp ServiceError Store}
    (h : (serviceMachine (loadProgram cfg)).Run LoadKept (.start s₀) tr b) :
    ∀ id, assigned tr id → ∃ r l, b.store.requests.get id = some r ∧ r.onTrip = true ∧
      b.store.listings.get r.listingId = some l ∧ l.status = .taken := by
  simp only [has_iff_mem] at hfk
  have hkept : TakenKept s₀ tr b.store := by
    refine Machine.Run.invariant (fun tr b => TakenKept s₀ tr b.store) ?_ ?_ h
    · exact ⟨fun _ hid => hid, fun _ hid => (by cases hid), fun _ hid => hid.elim⟩
    · intro tr b l e c hrun ih hs hok
      have hstart : ∀ r, Has s₀.toTables r → (startRows cfg s₀).known r := by
        intro r hr
        show (s₀.requests.get r.id).map (·.listingId) = some r.listingId
        rw [show s₀.requests.get r.id = some r from hr]
        rfl
      obtain ⟨hrows, hin⟩ := disciplined_run disciplined_loadProgram hstart hrun
      rcases serviceStep_cases hs with ⟨_, rfl, rfl⟩ | ⟨_, rfl, rfl⟩ | ⟨pid, cmd, k, hpool, rfl, rfl⟩
      · exact ih.quiet rfl rfl rfl
      · exact ih.quiet rfl rfl rfl
      · exact TakenKept.act hfk hrows ih (Machine.pre_of_within hin hpool) hok
  exact hkept.taken

/-- Load 1 with the request of driver 7 waiting. -/
def askedLoad : Store := (replay ⟨false, false⟩ oneLoad [(1, .request driverAnswers 7 1 none)]).2

/-- The company accepts the request, and the load is announced after that. -/
def acceptedSchedule : List (serviceMachine (loadProgram ⟨false, false⟩)).Label :=
  [begins _ 0 (.accept false 10 1 ⟨none, none⟩) 11, begins _ 1 (.announceNow true 10 1) 1].flatten

theorem load_stays_taken_accepted :
    ∃ tr b, (serviceMachine (loadProgram ⟨false, false⟩)).Run LoadKept (.start askedLoad) tr b ∧
      assigned tr 1 ∧ ∃ r l, b.store.requests.get 1 = some r ∧ r.onTrip = true ∧
        b.store.listings.get r.listingId = some l ∧ l.status = .taken := by
  have hplay : ((serviceMachine (loadProgram ⟨false, false⟩)).play LoadKept [] (.start askedLoad)
      acceptedSchedule).any (fun x => assigned x.1 1) = true := by
    decide
  simp only [Option.any_eq_true, decide_eq_true_eq] at hplay
  obtain ⟨⟨tr, b⟩, hp, hassigned⟩ := hplay
  have hrun := Machine.play_run .nil hp
  exact ⟨tr, b, hrun, hassigned, load_stays_taken ⟨false, false⟩ (by decide) hrun 1 hassigned⟩

/-- `announceNow` reads the load open; then the company accepts a request, and only then the load is
saved. -/
def staleAnnounceSchedule : List (serviceMachine (loadProgram ⟨false, false⟩)).Label :=
  [begins _ 0 (.announceNow true 10 1) 1, begins _ 1 (.accept false 10 1 ⟨none, none⟩) 11,
    [.act 0 (), .act 0 ()]].flatten

/-- The announcement's save opens the load of the running trip. -/
theorem stale_announce_opens_load :
    ¬∀ tr b, (serviceMachine (loadProgram ⟨false, false⟩)).Run (fun _ _ _ => True)
        (.start askedLoad) tr b → ∀ id, assigned tr id → ∀ r, b.store.requests.get id = some r →
      r.onTrip = true → ∃ l, b.store.listings.get r.listingId = some l ∧ l.status = .taken := by
  intro hclaim
  have hplay : ((serviceMachine (loadProgram ⟨false, false⟩)).play (fun _ _ _ => True) []
      (.start askedLoad) staleAnnounceSchedule).any (fun x => assigned x.1 1 ∧
        (x.2.store.requests.get 1).map (fun r => (r.onTrip, r.listingId)) = some (true, 1) ∧
        (x.2.store.listings.get 1).map (·.status) = some .opened) = true := by
    decide
  simp only [Option.any_eq_true, decide_eq_true_eq] at hplay
  obtain ⟨⟨tr, b⟩, hp, hassigned, hrow, hload⟩ := hplay
  obtain ⟨r, hr, hcols⟩ := Option.map_eq_some_iff.mp hrow
  obtain ⟨htrip, hlid⟩ := Prod.mk.inj hcols
  obtain ⟨l, hl, htaken⟩ := hclaim tr b (Machine.play_run .nil hp) 1 hassigned r hr htrip
  rw [hlid] at hl
  rw [hl, Option.map_some, htaken] at hload
  cases hload

end TransportBackend.LoadInterleaving
