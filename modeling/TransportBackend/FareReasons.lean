import TransportBackend.FareDialog
import TransportBackend.TripFareHistory

/-!
# The reason of a changed fare

The form decides once, after the weight, whether the delivered fare needs a reason; the service decides
again from the fare on record.  The session carries the values between the two through edits, kept
values and other units.

* `Move.agreed_read`: an agreed fare on record was read by `readTripFare`;
* `Asked`: what holds of every session of a delivery;
* `reason_asked`: **at the last step a reason is given exactly where the service asks for one**, and
  the agreed values are recorded as they were agreed.
-/

namespace TransportBackend.FareReasons

open TransportBackend.AtomicProgram
open TransportBackend.AtomicProgram.Prog
open TransportBackend.Binary64
open TransportBackend.FareDialog
open TransportBackend.KeyedTable
open TransportBackend.TripFareHistory
open TransportBackend.TripFareRules
open TransportBackend.TripStore
open TransportBackend.ListingService
open TransportBackend.TripService
open TransportBackend.TripRun
open TransportBackend.TripEffect
open TransportBackend.TripMoves
open TransportBackend.TripInvariant
open TransportBackend.TripRevival

/-! ### The agreed fare on record -/

/-- Every agreed fare was read from an input. -/
def AgreedRead (F : Table TripFare.key) : Prop :=
  ∀ id row, F.get (id, .agreed) = some row →
    ∃ input v, readTripFare input = .ok v ∧ row.view = agreedValues v

theorem agreedRead_recorded {F : Table TripFare.key} (hF : AgreedRead F) {kept : Bool}
    {input : Option TripFareInput} {fare : Option TripFareValues} (hread : FareRead kept input fare)
    (id user : ℕ) : AgreedRead (recorded F id .agreed (fare.map agreedValues) user) := by
  cases fare with
  | none => exact hF
  | some v =>
      intro other row hrow
      by_cases hsame : other = id
      · subst hsame
        rw [Option.map_some, recorded_get_self] at hrow
        cases hrow
        have hview := view_recorded hread none other .agreed user
        cases hread with
        | read _ hv => exact ⟨input, v, hv, hview⟩
      · rw [recorded_get_of_ne fun hc => hsame (Prod.mk.inj hc).1] at hrow
        exact hF other row hrow

variable {cfg : Services} {t : ℕ} {op : TripOp} {T T' : Tables}

/-- **Every operation keeps the agreed fares read ones.** -/
theorem Move.agreed_read (h : Move cfg t op T T') (hF : AgreedRead T.fares) : AgreedRead T'.fares := by
  cases h with
  | accepted hk hpend hl hopen hfree hfare hrows hlist hfares =>
      rw [hfares]
      exact agreedRead_recorded hF hfare _ _
  | offered hl hopen hfree hold hfare => exact agreedRead_recorded hF hfare _ _
  | offeredFirst hl hopen hfree hnone hfare => exact agreedRead_recorded hF hfare _ _
  | offerAccepted hk hactive hrows hlist hfares => rw [hfares]; exact hF
  | swept hxs hrows hlist hfares => rw [hfares]; exact hF
  | reminded hrows hlist hfares => rw [hfares]; exact hF
  | delivered hk hacc hfare hreason hsettle =>
      intro id row hrow
      have hsame : T.fares.get (id, .agreed) = some row :=
        (recorded_get_of_ne fun hc => (by cases (Prod.mk.inj hc).2)).symm.trans hrow
      exact hF id row hsame
  | calledOff hcalled => rw [hcalled.fares]; exact hF
  | statusSet hguard => rw [listingsSet_fares]; exact hF
  | _ => exact hF

theorem History.agreed_read {Ok : List Moment → Moment → Prop} {s₀ s : Store} {past : List Moment}
    (h₀ : s₀.requests.rows = []) (hf₀ : s₀.fares.rows = []) (h : History cfg Ok s₀ past s) :
    AgreedRead s.fares := by
  refine History.invariant (fun _ s => AgreedRead s.fares) ?_ ?_ h
  · intro id row hrow
    have hmem := Table.mem_of_get hrow
    rw [hf₀] at hmem
    cases hmem
  · intro past s t op hrun ih ht _
    have hs := (History.sound h₀ hrun).later ht.le
    exact Move.agreed_read (move_step cfg hs op) ih

/-! ### Values read again -/

/-- A fare that was read is accepted as it is. -/
theorem accepted_again {input : TripFareInput} {v : TripFareValues} (h : Accepted input v)
    {again : TripFareInput} (hbasis : again.basis = .value v.basis) (hrate : again.rate = some v.rate)
    (hweight : again.weightTons = some v.weightTons) (hcurrency : again.currency = .value v.currency)
    {reason : Option FareChangeReason} (hreason : again.changeReason = givenOf reason)
    (hnote : again.note = none) :
    Accepted again { v with changeReason := reason, note := none } where
  basis := hbasis
  rate := hrate
  safeRate := h.safeRate
  positiveRate := h.positiveRate
  weight := by
    obtain ⟨k, hk, hle⟩ := (readTripFare_valid (readTripFare_iff.mpr h)).weight
    rw [hweight, Option.map_some, hk, roundHundredths_hundredths hle]
  positiveWeight := h.positiveWeight
  weight_le := h.weight_le
  currency := ⟨some v.currency, by rw [hcurrency]; rfl, rfl⟩
  changeReason := by
    rw [hreason]
    cases reason <;> rfl
  total := h.total
  safeTotal := h.safeTotal
  note := by
    rw [hnote]
    rfl

theorem accepted_of_read {values : Answers} {fare : TripFareValues} (h : values.read = .ok fare) :
    Accepted values.input fare := readTripFare_iff.mp h

theorem reason_of_read {values : Answers} {fare : TripFareValues} (h : values.read = .ok fare) :
    fare.changeReason = values.changeReason := by
  have hreason := (accepted_of_read h).changeReason
  unfold Answers.input at hreason
  cases hgiven : values.changeReason with
  | none =>
      rw [hgiven] at hreason
      exact (Except.ok.inj hreason).symm
  | some reason =>
      rw [hgiven] at hreason
      exact (Except.ok.inj hreason).symm

/-- **What the form hands over is read as it was.** -/
theorem read_handed {values : Answers} {fare : TripFareValues} (h : values.read = .ok fare) :
    readTripFare (some (TripFareValues.input fare)) = .ok fare := by
  have haccepted := accepted_of_read h
  have hnote : fare.note = none := haccepted.note
  have hagain : Accepted (TripFareValues.input fare)
      { fare with changeReason := fare.changeReason, note := none } :=
    accepted_again haccepted rfl rfl rfl rfl rfl hnote
  have hsame : ({ fare with changeReason := fare.changeReason, note := none } : TripFareValues) = fare := by
    cases fare
    simp_all
  rw [hsame] at hagain
  exact readTripFare_iff.mpr hagain

/-- The agreed values are accepted, and change nothing. -/
theorem read_agreedAnswers {input : Option TripFareInput} {v agreed : TripFareValues}
    (h : readTripFare input = .ok v) (hagreed : agreed = agreedValues v) :
    (agreedAnswers agreed).read = .ok { agreed with changeReason := none, note := none } := by
  subst hagreed
  cases input with
  | none => cases h
  | some input =>
      have hagain : Accepted (agreedAnswers (agreedValues v)).input
          { v with changeReason := none, note := none } :=
        accepted_again (readTripFare_iff.mp h) rfl rfl rfl rfl rfl rfl
      exact readTripFare_iff.mpr hagain

theorem fareChanged_self {agreed : TripFareValues} {reason : Option FareChangeReason} {note : Option String} :
    fareChanged agreed { agreed with changeReason := reason, note := note } = false := by
  simp [fareChanged]

/-! ### How a session goes on -/

/-- What one message makes of a stored session that it keeps. -/
inductive Turn (session : FareSession) : FareSession → Prop where
  | stays : Turn session session
  | restarts : Turn session { session with step := .basis, values := .none }
  | basis {basis : FareBasis} (h : session.step = .basis) :
      Turn session { session with step := .rate, values := { session.values with basis := some basis } }
  | rate {amount : ℚ} {currency : Option FareCurrency} (h : session.step = .rate) :
      Turn session { session with
        step := .weight, values := { session.values with rate := some amount, currency := currency } }
  | weight {w : ℚ} (h : session.step = .weight) : Turn session (weighed session w)
  | unit {arg : String} (h : session.step = .weight) : Turn session { session with weightUnit := some arg }
  | reason {reason : FareChangeReason} (h : session.step = .reason) :
      Turn session { session with
        step := .confirm, values := { session.values with changeReason := some reason } }
  | pay {model : BrokerPayModel} (h : session.step = .pay) :
      Turn session { session with step := .confirm, payModel := some model }

theorem turn_save {service : TripsService} {stored session session' : FareSession}
    (hsame : { session with step := .basis, values := .none } = { stored with step := .basis, values := .none })
    (h : (save service stored session).stored = some session') : Turn stored session' := by
  unfold save at h
  split at h
  · cases h
    rw [hsame]
    exact .restarts
  · split at h
    · cases h
    · cases h
      exact .stays
    · cases h

theorem turn_onAction {service : TripsService} {session session' : FareSession} {a : Action} {chat : Chat}
    (h : onAction service session a = some chat) (hstored : chat.stored = some session') :
    Turn session session' := by
  cases a with
  | cancel =>
      cases h
      cases hstored
  | edit =>
      cases h
      cases hstored
      exact .restarts
  | change =>
      cases h
      cases hstored
      exact .restarts
  | same =>
      obtain ⟨agreed, _, rfl⟩ := Option.map_eq_some_iff.mp h
      refine turn_save ?_ hstored
      rfl
  | save =>
      cases h
      exact turn_save rfl hstored
  | basis arg =>
      simp only [onAction] at h
      split_ifs at h with hstep
      obtain ⟨basis, _, rfl⟩ := Option.map_eq_some_iff.mp h
      cases hstored
      exact .basis hstep
  | keep =>
      obtain ⟨keep, _, h⟩ := Option.bind_eq_some_iff.mp h
      split at h
      · cases h
        cases hstored
        exact .rate ‹_›
      · cases h
        cases hstored
        exact .weight ‹_›
      · cases h
  | unit arg =>
      simp only [onAction] at h
      split_ifs at h with hunit
      cases h
      cases hstored
      exact .unit hunit.1
  | reason arg =>
      simp only [onAction] at h
      split_ifs at h with hstep
      obtain ⟨reason, _, rfl⟩ := Option.map_eq_some_iff.mp h
      cases hstored
      exact .reason hstep
  | pay arg =>
      simp only [onAction] at h
      split_ifs at h with hstep
      obtain ⟨model, _, rfl⟩ := Option.map_eq_some_iff.mp h
      cases hstored
      exact .pay hstep

/-- **What one message does to the stored session.** -/
theorem turn_on {chat : Chat} {message : Message} {session' : FareSession}
    (h : (chat.on message).stored = some session') :
    ∃ session, chat.stored = some session ∧ Turn session session' := by
  cases message with
  | action id service =>
      have hon : (handleAction service chat id).stored = some session' := h
      unfold handleAction at hon
      split_ifs at hon
      · split at hon
        · cases hon
        · rename_i session hstored
          refine ⟨session, hstored, ?_⟩
          cases hread : Action.read id with
          | none =>
              rw [hread] at hon
              cases hon
              exact .stays
          | some a =>
              rw [hread, Option.bind_some] at hon
              cases hdone : onAction service session a with
              | none =>
                  rw [hdone] at hon
                  cases hon
                  exact .stays
              | some chat' =>
                  rw [hdone] at hon
                  exact turn_onAction hdone hon
      · exact ⟨session', hon, .stays⟩
  | text text =>
      have hon : (handleText chat text).stored = some session' := h
      unfold handleText at hon
      split at hon
      · rename_i hnone
        rw [hnone] at hon
        cases hon
      · rename_i session hstored
        refine ⟨session, hstored, ?_⟩
        split_ifs at hon
        · cases hon
        split at hon
        · split at hon
          · cases hon
            exact .rate ‹_›
          · cases hon
            exact .stays
        · split at hon
          · cases hon
            exact .weight ‹_›
          · cases hon
            exact .stays
        · cases hon
          exact .stays

/-! ### The invariant of a delivery -/

/-- What holds of every session of a delivery started with an agreed fare. -/
structure Asked (id : ℕ) (agreed : TripFareValues) (session : FareSession) : Prop where
  purpose : session.purpose = .deliver id
  onRecord : session.agreed = some agreed
  unpaid : session.step ≠ .pay
  reason : session.step = .reason → ∃ fare, session.values.read = .ok fare ∧ fareChanged agreed fare = true
  confirm : session.step = .confirm → ∀ fare, session.values.read = .ok fare →
    (session.values.changeReason.isSome = true ↔ fareChanged agreed fare = true)

theorem fareChanged_reason {agreed fare : TripFareValues} {reason : Option FareChangeReason} :
    fareChanged agreed { fare with changeReason := reason } = fareChanged agreed fare := rfl

theorem changed_iff {id : ℕ} {agreed : TripFareValues} {session : FareSession} (h : Asked id agreed session)
    {values : Answers} : changed session values = true ↔
      ∃ fare, values.read = .ok fare ∧ fareChanged agreed fare = true := by
  unfold changed
  rw [h.purpose, h.onRecord]
  simp only [FarePurpose.isDeliver, Option.any_some, Bool.true_and]
  cases values.read with
  | error error => simp
  | ok fare => simp

/-- **Each message keeps the invariant.** -/
theorem Asked.turn {id : ℕ} {agreed : TripFareValues} {session session' : FareSession}
    (h : Asked id agreed session) (hturn : Turn session session') : Asked id agreed session' := by
  cases hturn with
  | stays => exact h
  | restarts => exact ⟨h.purpose, h.onRecord, by simp, by simp, by simp⟩
  | basis hstep => exact ⟨h.purpose, h.onRecord, by simp, by simp, by simp⟩
  | rate hstep => exact ⟨h.purpose, h.onRecord, by simp, by simp, by simp⟩
  | unit hstep => exact ⟨h.purpose, h.onRecord, by simp [hstep], by simp [hstep], by simp [hstep]⟩
  | pay hstep => exact absurd hstep h.unpaid
  | weight hstep =>
      rename_i w
      have haccept : session.purpose.isAccept = false := by
        rw [h.purpose]
        rfl
      have hchanged : changed session { session.values with weightTons := some w } = true ↔ _ := changed_iff h
      cases hc : changed session { session.values with weightTons := some w } with
      | true =>
          -- the reason is asked for: the values were read, and they differ
          obtain ⟨fare, hread, hdiffers⟩ := hchanged.mp hc
          refine ⟨h.purpose, h.onRecord, by simp [weighed, hc], fun _ => ⟨fare, ?_, hdiffers⟩, by simp [weighed, hc]⟩
          simp only [weighed, hc, if_true]
          exact hread
      | false =>
          -- the summary: no reason, and none is needed where the values are read
          refine ⟨h.purpose, h.onRecord, by simp [weighed, hc, haccept], by simp [weighed, hc, haccept], ?_⟩
          intro _ fare hread
          simp only [weighed, hc, Bool.false_eq_true, if_false] at hread ⊢
          rw [read_changeReason { session.values with weightTons := some w } none] at hread
          cases hbefore : ({ session.values with weightTons := some w } : Answers).read with
          | error error =>
              rw [hbefore] at hread
              cases hread
          | ok before =>
              rw [hbefore] at hread
              cases hread
              simp only [Option.isSome_none, Bool.false_eq_true, false_iff]
              intro hdiffers
              rw [hchanged.mpr ⟨before, hbefore, hdiffers⟩] at hc
              cases hc
  | reason hstep =>
      rename_i reason
      refine ⟨h.purpose, h.onRecord, by simp, by simp, fun _ fare hread => ?_⟩
      obtain ⟨before, hbefore, hchanged⟩ := h.reason hstep
      rw [read_changeReason, hbefore] at hread
      cases hread
      exact ⟨fun _ => hchanged, fun _ => rfl⟩


theorem asked_start {id : ℕ} {agreed : TripFareValues} {form : TripFareForm} (hform : form.agreed = some agreed)
    {session : FareSession} (hstored : (start (.deliver id) form).stored = some session) :
    Asked id agreed session := by
  unfold start at hstored
  cases hstored
  refine ⟨rfl, hform, ?_, ?_, ?_⟩ <;> simp [FarePurpose.isDeliver, hform]

theorem asked_run {id : ℕ} {agreed : TripFareValues} {form : TripFareForm} (hform : form.agreed = some agreed)
    (messages : List Message) {session : FareSession}
    (hstored : ((start (.deliver id) form).run messages).stored = some session) : Asked id agreed session := by
  induction messages using List.reverseRecOn generalizing session with
  | nil => exact asked_start hform hstored
  | append_singleton messages message ih =>
      rw [run_append] at hstored
      obtain ⟨before, hbefore, hturn⟩ := turn_on hstored
      exact (ih hbefore).turn hturn

/-! ### What the service records -/

/-- What `confirmDelivery` does first with the fare it is given. -/
def recordFare (r : CargoRequest) (input : TripFareInput) (user : ℕ) : Trip Unit := do
  let fare ← fareIf true (some input)
  recordDeliveredIfGiven r fare user

/-- The service as it answers over a store, as far as the fare is concerned. -/
def serviceOn (s : Store) (r : CargoRequest) (user : ℕ) : TripsService := fun _ input _ =>
  match ((recordFare r input user).run exec s).1 with
  | .ok _ => .done
  | .error (.badRequest message) => .refused message
  | .error _ => .failed "notFound"

theorem recordFare_of_read {r : CargoRequest} {input : TripFareInput} {v : TripFareValues} {user : ℕ}
    (h : readTripFare (some input) = .ok v) : recordFare r input user = recordDelivered r v user := by
  unfold recordFare fareIf readFare
  rw [h]
  rfl

/-- A fare that needs no reason, or has one, is recorded. -/
theorem recordDelivered_ok {r : CargoRequest} {v : TripFareValues} {user : ℕ} {s : Store}
    (h : deliveryChanged (s.fares.get (r.id, .agreed)) v = true → v.changeReason ≠ none) :
    ∃ s', (recordDelivered r v user).run exec s = (.ok (), s') ∧
      s'.fares.get (r.id, .delivered) = some (TripFare.store r.id .delivered
        (deliveredValues (s.fares.get (r.id, .agreed)) v) user) := by
  have hafter : (recordDelivered r v user).After exec s
      (fun _ s' => s'.fares.get (r.id, .delivered) = some (TripFare.store r.id .delivered
        (deliveredValues (s.fares.get (r.id, .agreed)) v) user)) (fun _ => False) := by
    simp only [recordDelivered, after_bind, after_issue, after_refuseIf, exec]
    refine ⟨fun hrefused => h hrefused.1 hrefused.2, fun _ => after_upsert ?_⟩
    exact recorded_get_self _ _ _ _ _
  unfold After at hafter
  cases hrun : (recordDelivered r v user).run exec s with
  | mk out s' =>
      rw [hrun] at hafter
      cases out with
      | error e => exact hafter.elim
      | ok u => exact ⟨s', rfl, hafter⟩

/-- **The last step is never short of a reason.**  For a delivery started with the agreed fare on record,
after any messages: at the last step a reason is given exactly where the fare differs, so the service
records it; and «بدون تغییر», at any step, records what was agreed. -/
theorem reason_asked (cfg : Services) {s₀ s : Store} {past : List Moment} (h₀ : s₀.requests.rows = [])
    (hf₀ : s₀.fares.rows = []) (h : History cfg Unrestricted s₀ past s) {id : ℕ} {row : TripFare}
    (hrow : s.fares.get (id, .agreed) = some row) (form : TripFareForm) (hform : form.agreed = some row.view)
    (messages : List Message) {session : FareSession}
    (hstored : ((start (.deliver id) form).run messages).stored = some session) :
    (session.step = .confirm → ∀ fare, session.values.read = .ok fare →
      (session.values.changeReason.isSome = true ↔ fareChanged row.view fare = true)) ∧
    ∀ (later : Store) (r : CargoRequest) (user : ℕ), r.id = id → later.fares.get (id, .agreed) = some row →
      (session.step = .confirm → session.values.readable = true →
        ((start (.deliver id) form).run messages).on (.action "tf:ok" (serviceOn later r user)) =
          finish (.deliver id) "delivered.done") ∧
      ((start (.deliver id) form).run messages).on (.action "tf:same" (serviceOn later r user)) =
        finish (.deliver id) "delivered.done" ∧
      ∃ fare recorded final, (agreedAnswers row.view).read = .ok fare ∧
        (recordFare r (TripFareValues.input fare) user).run exec later = (.ok (), final) ∧
        final.fares.get (id, .delivered) = some recorded ∧
        recorded.view = { row.view with changeReason := none, note := none } := by
  have hasked := asked_run hform messages hstored
  refine ⟨hasked.confirm, fun later r user hid hlater => ?_⟩
  subst hid
  have hdelivered : ∀ {values : Answers} {fare : TripFareValues}, values.read = .ok fare →
      (fareChanged row.view fare = true → values.changeReason ≠ none) →
      ∃ final, (recordFare r (TripFareValues.input fare) user).run exec later = (.ok (), final) ∧
        final.fares.get (r.id, .delivered) = some (TripFare.store r.id .delivered
          (deliveredValues (some row) fare) user) := by
    intro values fare hread hreason
    rw [recordFare_of_read (read_handed hread), ← hlater]
    refine recordDelivered_ok fun hchanged => ?_
    rw [hlater] at hchanged
    rw [reason_of_read hread]
    exact hreason (by simpa [deliveryChanged] using hchanged)
  have hagreed : session.agreed = some row.view := hasked.onRecord
  have hpurpose := hasked.purpose
  obtain ⟨input, v, hv, hview⟩ := History.agreed_read h₀ hf₀ h r.id row hrow
  have hsame := read_agreedAnswers hv hview
  have hsaved : ∀ {values : Answers} {fare : TripFareValues}, values.read = .ok fare →
      (fareChanged row.view fare = true → values.changeReason ≠ none) →
      save (serviceOn later r user) session { session with values := values } =
        finish (.deliver r.id) "delivered.done" := by
    intro values fare hread hreason
    obtain ⟨final, hrun, _⟩ := hdelivered hread hreason
    have hanswer : serviceOn later r user (.deliver r.id) (TripFareValues.input fare) session.payModel = .done := by
      simp [serviceOn, hrun]
    simp only [save, hread, hpurpose, hanswer, doneText]
  have hon : ∀ {id : String} {a : Action} {chat : Chat}, Action.read id = some a →
      onAction (serviceOn later r user) session a = some chat →
      ((start (.deliver r.id) form).run messages).on (.action id (serviceOn later r user)) = chat := by
    intro id a chat hread hdone
    generalize (start (.deliver r.id) form).run messages = before at hstored ⊢
    obtain ⟨stored, shown⟩ := before
    cases hstored
    exact on_of_read shown hread hdone
  refine ⟨fun hstep hreadable => ?_, ?_, ?_⟩
  · obtain ⟨fare, hread⟩ := readable_iff.mp hreadable
    refine hon (a := .save) (by decide) (congrArg some (hsaved hread fun hchanged => ?_))
    exact Option.isSome_iff_ne_none.mp ((hasked.confirm hstep fare hread).mpr hchanged)
  · refine hon (a := .same) (by decide) ?_
    refine Option.map_eq_some_iff.mpr ⟨row.view, hagreed, hsaved hsame fun hchanged => ?_⟩
    rw [fareChanged_self] at hchanged
    cases hchanged
  · obtain ⟨final, hrun, hrecorded⟩ := hdelivered hsame fun hchanged => by
      rw [fareChanged_self] at hchanged
      cases hchanged
    refine ⟨_, _, final, hsame, hrun, hrecorded, ?_⟩
    have hkept : deliveredValues (some row) { row.view with changeReason := none, note := none } =
        { row.view with changeReason := none, note := none } := by
      simp [deliveredValues]
    rw [hkept]
    exact TripFare.view_store (readTripFare_valid hsame) _ _ _

/-- A driver's request, accepted at 1000 tomans for ten tons. -/
def acceptedRun : List (ℕ × TripOp) :=
  [(2, .decide false 10 1 true ⟨some thousandTotal, none⟩), (1, .request driverAnswers 7 1 none)]

/-- The company says that the fare changed, to 900 tomans for eight tons. -/
def shortAnswers : List Message :=
  [.action "tf:chg" fun _ _ _ => .done, .action "tf:b:TOTAL" fun _ _ _ => .done, .text "900".toList,
    .text "8".toList, .action "tf:r:SHORTAGE" fun _ _ _ => .done]

theorem reason_asked_shortage :
    let s := (replay ⟨true, false⟩ oneLoad acceptedRun).2
    ∃ row session, s.fares.get (1, .agreed) = some row ∧
      ((start (.deliver 1) ⟨.none, some row.view, false, none⟩).run shortAnswers).stored = some session ∧
      session.step = .confirm ∧ ∀ fare, session.values.read = .ok fare → fareChanged row.view fare = true := by
  intro s
  have hrow : (s.fares.get (1, .agreed)).isSome = true := by decide +kernel
  obtain ⟨row, hrow⟩ := Option.isSome_iff_exists.mp hrow
  have hrow' : row = TripFare.store 1 .agreed ⟨.total, 1000, 10, .toman, 1000, none, none⟩ 10 := by
    have hsome : s.fares.get (1, .agreed) =
        some (TripFare.store 1 .agreed ⟨.total, 1000, 10, .toman, 1000, none, none⟩ 10) := by decide +kernel
    exact Option.some.inj (hrow.symm.trans hsome)
  have hchat : (((start (.deliver 1) ⟨.none, some row.view, false, none⟩).run shortAnswers).stored.map fun session =>
      (session.step, session.values.changeReason)) = some (.confirm, some .shortage) := by
    rw [hrow']
    decide +kernel
  obtain ⟨session, hsession, hstep⟩ := Option.map_eq_some_iff.mp hchat
  obtain ⟨hconfirm, hreason⟩ := Prod.mk.inj hstep
  refine ⟨row, session, hrow, hsession, hconfirm, fun fare hread => ?_⟩
  have hhistory : History ⟨true, false⟩ Unrestricted oneLoad (replay ⟨true, false⟩ oneLoad acceptedRun).1 s :=
    replay_history ⟨true, false⟩ oneLoad (by decide)
  have hasked := (reason_asked ⟨true, false⟩ rfl rfl hhistory hrow ⟨.none, some row.view, false, none⟩ rfl
    shortAnswers hsession).1
  exact (hasked hconfirm fare hread).mp (by rw [hreason]; rfl)

end TransportBackend.FareReasons
