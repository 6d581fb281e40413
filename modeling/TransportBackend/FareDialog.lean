import TransportBackend.PriceTexts

/-!
# The fare form of the bots

A port of `tripFareDialog.ts`: a company answers one question after another, with buttons or with
typed figures, and the session between two messages holds the step, the values given so far and the
values the form was prefilled with.  What `CargoTripService` does with the finished fare is a parameter
(`TripsService`).

* `handleAction`, `handleText`: what a button and a text do;
* `ask`, `summary`: the page that is shown;
* `read_changeReason`: the reason of a change has no part in whether the values are accepted.
-/

namespace TransportBackend.FareDialog

open TransportBackend.PriceTexts
open TransportBackend.TripFareRules

/-! ### Buttons -/

/-- `Object.values(FareBasis)`. -/
def fareBases : List (String × FareBasis) := [("TOTAL", .total), ("PER_TON", .perTon)]

/-- `Object.values(FareChangeReason)`. -/
def fareChangeReasons : List (String × FareChangeReason) :=
  [("SHORTAGE", .shortage), ("WAITING", .waiting), ("OVERWEIGHT", .overweight), ("EXTRA_COST", .extraCost),
    ("DISCOUNT", .discount), ("WEIGHT", .weight), ("OTHER", .other)]

/-- `Object.values(BrokerPayModel)`. -/
def brokerPayModels : List (String × BrokerPayModel) := [("COMMISSION", .commission), ("MARGIN", .margin)]

/-- `Object.keys(WEIGHT_UNIT_LABEL)`. -/
def weightUnits : List String := ["TON", "KG"]

/-- The member of an enumeration that a text names. -/
def member {α : Type} (values : List (String × α)) (text : String) : Option α :=
  (values.find? fun entry => entry.1 = text).map Prod.snd

/-- `Action`; some carry what is written after their prefix. -/
inductive Action where
  | basis (arg : String)
  | keep
  | reason (arg : String)
  | pay (arg : String)
  | unit (arg : String)
  | same
  | change
  | save
  | edit
  | cancel
  deriving DecidableEq

def PREFIX : String := "tf:"

def Action.id : Action → String
  | .basis arg => "tf:b:" ++ arg
  | .keep => "tf:k"
  | .reason arg => "tf:r:" ++ arg
  | .pay arg => "tf:p:" ++ arg
  | .unit arg => "tf:u:" ++ arg
  | .same => "tf:same"
  | .change => "tf:chg"
  | .save => "tf:ok"
  | .edit => "tf:ed"
  | .cancel => "tf:x"

/-- `startsWith` and the `slice` after it. -/
def argAfter (first id : String) : Option String :=
  if first.toList.isPrefixOf id.toList then some (String.ofList (id.toList.drop first.toList.length)) else none

/-- `ownsAction`. -/
def ownsAction (id : String) : Bool := PREFIX.toList.isPrefixOf id.toList

/-- The button an id is of, compared in the order of `handleAction`. -/
def Action.read (id : String) : Option Action :=
  if id = "tf:x" then some .cancel
  else if id = "tf:ed" then some .edit
  else if id = "tf:chg" then some .change
  else if id = "tf:same" then some .same
  else if id = "tf:ok" then some .save
  else if id = "tf:k" then some .keep
  else ((argAfter "tf:b:" id).map .basis).or <| ((argAfter "tf:u:" id).map .unit).or <|
    ((argAfter "tf:r:" id).map .reason).or <| (argAfter "tf:p:" id).map .pay

/-! ### The session -/

/-- `FarePurpose`; `back` is the button of the list a load was handed over from. -/
inductive FarePurpose where
  | accept (requestId : ℕ)
  | deliver (requestId : ℕ)
  | offer (listingId driverUserId : ℕ) (back : String)
  deriving DecidableEq

inductive FareStep where
  | review
  | basis
  | rate
  | weight
  | reason
  | pay
  | confirm
  deriving DecidableEq

/-- The parts of a `Partial<TripFareInput>` that the form fills in. -/
structure Answers where
  basis : Option FareBasis
  rate : Option ℚ
  weightTons : Option ℚ
  currency : Option FareCurrency
  changeReason : Option FareChangeReason
  deriving DecidableEq

/-- `{}`. -/
def Answers.none : Answers := ⟨.none, .none, .none, .none, .none⟩

def givenOf {α : Type} : Option α → Given α
  | none => .absent
  | some a => .value a

/-- What `readTripFare` is given. -/
def Answers.input (values : Answers) : TripFareInput where
  basis := givenOf values.basis
  rate := values.rate
  weightTons := values.weightTons
  currency := givenOf values.currency
  changeReason := givenOf values.changeReason
  note := .none

def Answers.read (values : Answers) : Except String TripFareValues := readTripFare (some values.input)

/-- `readTripFare` accepts them. -/
def Answers.readable (values : Answers) : Bool := values.read.isOk

/-- `TripFareForm`, as far as the form uses it. -/
structure TripFareForm where
  values : Answers
  agreed : Option TripFareValues
  broker : Bool
  payModel : Option BrokerPayModel

structure FareSession where
  purpose : FarePurpose
  step : FareStep
  values : Answers
  defaults : Answers
  agreed : Option TripFareValues
  broker : Bool
  payModel : Option BrokerPayModel
  weightUnit : Option String
  deriving DecidableEq

def FarePurpose.isDeliver : FarePurpose → Bool
  | .deliver _ => true
  | _ => false

def FarePurpose.isAccept : FarePurpose → Bool
  | .accept _ => true
  | _ => false

/-- `session.weightUnit ?? 'TON'`, as `readWeight` takes it. -/
def FareSession.unit (session : FareSession) : WeightUnit :=
  if session.weightUnit = some "KG" then .kg else .ton

/-! ### Questions -/

/-- What is shown: the step it asks for (none when the form is over), the texts by their keys, and the
ids of the buttons. -/
structure Page where
  step : Option FareStep
  question : String
  problem : Option String
  stepLine : Option (ℕ × ℕ)
  actions : List String
  deriving DecidableEq

/-- The prefilled value of a text step, if it fits. -/
def keepValue (session : FareSession) : Option ℚ :=
  match session.step with
  | .rate => session.defaults.rate.filter fun rate => rate ≠ 0 ∧ session.defaults.basis = session.values.basis
  | .weight => session.defaults.weightTons
  | _ => none

/-- «(مرحله‌ی ۲ از ۴)». -/
def stepLine (session : FareSession) : Option (ℕ × ℕ) :=
  let steps := [FareStep.basis, .rate, .weight] ++
    (if session.purpose.isDeliver ∧ session.agreed.isSome then [.reason] else []) ++
    (if session.purpose.isAccept ∧ session.broker then [.pay] else [])
  (steps.idxOf? session.step).map fun index => (index + 1, steps.length)

def question (session : FareSession) : String :=
  match session.step with
  | .review => "review"
  | .basis => "askBasis"
  | .rate => if session.values.basis = some .perTon then "askRatePerTon" else "askRateTotal"
  | .weight => (if session.purpose.isDeliver then "askWeightDeliver" else "askWeight") ++
      (if session.unit = .kg then "Kg" else "")
  | .reason => "askReason"
  | .pay => "askPay"
  | .confirm => "confirm"

/-- The buttons of a question's own. -/
def choices : FareStep → List Action
  | .review => [.same, .change]
  | .basis => fareBases.map fun entry => .basis entry.1
  | .rate => []
  | .weight => weightUnits.map .unit
  | .reason => fareChangeReasons.map fun entry => .reason entry.1
  | .pay => brokerPayModels.map fun entry => .pay entry.1
  | .confirm => [.save, .edit]

/-- The buttons of a page, `confirm` excepted: the choices, what may be kept, and the way out. -/
def buttons (session : FareSession) : List Action :=
  choices session.step ++ (if (keepValue session).isSome then [.keep] else []) ++ [.cancel]

/-- A question with its buttons. -/
def pageOf (session : FareSession) (problem : Option String) : Page where
  step := some session.step
  question := question session
  problem := problem
  stepLine := stepLine session
  actions := (buttons session).map Action.id

/-- The values once more and «ثبت»; the first question, with the reason, where they are refused. -/
def summary (session : FareSession) (problem : Option String) : Page :=
  match session.values.read with
  | .error error => pageOf { session with step := .basis } (some error)
  | .ok _ =>
      { step := some .confirm
        question := "confirm"
        problem := problem
        stepLine := none
        actions := [Action.save, .edit, .cancel].map Action.id }

def ask (session : FareSession) (problem : Option String) : Page :=
  if session.step = .confirm then summary session problem else pageOf session problem

/-! ### Answers -/

/-- What a call of `CargoTripService` comes to: done, refused with a 400, or failed otherwise. -/
inductive ServiceAnswer where
  | done
  | refused (message : String)
  | failed (text : String)
  deriving DecidableEq

/-- `decide`, `deliver` and `offer` with a finished fare. -/
abbrev TripsService : Type := FarePurpose → TripFareInput → Option BrokerPayModel → ServiceAnswer

/-- A chat: the stored session, and the page shown last. -/
structure Chat where
  stored : Option FareSession
  shown : Page
  deriving DecidableEq

def next (session : FareSession) : Chat := ⟨some session, ask session none⟩

/-- The list a finished form leads back to. -/
def wayBack : FarePurpose → List String
  | .offer _ _ back => [back]
  | .accept _ => ["tr:cr:1", "tr:ct:1"]
  | .deliver _ => ["tr:ct:1"]

def finish (purpose : FarePurpose) (text : String) : Chat where
  stored := none
  shown := ⟨none, text, none, none, wayBack purpose⟩

def doneText : FarePurpose → String
  | .accept _ => "decision.accepted"
  | .deliver _ => "delivered.done"
  | .offer _ _ _ => "cargo.assign.offered"

/-- The fare a finished form hands over. -/
def TripFareValues.input (fare : TripFareValues) : TripFareInput where
  basis := .value fare.basis
  rate := some fare.rate
  weightTons := some fare.weightTons
  currency := .value fare.currency
  changeReason := givenOf fare.changeReason
  note := fare.note

/-- `save`: a refused fare is shown again with the reason, and what was stored stays stored. -/
def save (service : TripsService) (stored session : FareSession) : Chat :=
  match session.values.read with
  | .error _ => next { session with step := .basis, values := .none }
  | .ok fare =>
      match service session.purpose (TripFareValues.input fare) session.payModel with
      | .done => finish session.purpose (doneText session.purpose)
      | .refused message => ⟨some stored, summary session (some message)⟩
      | .failed text => finish session.purpose text

def afterRate (session : FareSession) (amount : ℚ) (currency : Option FareCurrency) : Chat :=
  next { session with step := .weight, values := { session.values with rate := some amount, currency := currency } }

/-- A delivery at other values than the agreed ones. -/
def changed (session : FareSession) (values : Answers) : Bool :=
  session.purpose.isDeliver && session.agreed.any fun agreed =>
    match values.read with
    | .ok fare => fareChanged agreed fare
    | .error _ => false

/-- The session after the weight: at the reason, at how a broker is paid, or at the summary. -/
def weighed (session : FareSession) (weightTons : ℚ) : FareSession :=
  let values := { session.values with weightTons := some weightTons }
  { session with
    step := if changed session values then .reason
      else if session.purpose.isAccept ∧ session.broker then .pay else .confirm
    values := { values with changeReason := if changed session values then values.changeReason else none } }

def afterWeight (session : FareSession) (weightTons : ℚ) : Chat := next (weighed session weightTons)

/-- The agreed values as answers. -/
def agreedAnswers (agreed : TripFareValues) : Answers :=
  ⟨some agreed.basis, some agreed.rate, some agreed.weightTons, some agreed.currency, none⟩

/-- What a button does at the stored step; none where the page is only shown again. -/
def onAction (service : TripsService) (session : FareSession) : Action → Option Chat
  | .cancel => some (finish session.purpose "cancelled")
  | .edit | .change => some (next { session with step := .basis, values := .none })
  | .same => session.agreed.map fun agreed => save service session { session with values := agreedAnswers agreed }
  | .save => some (save service session session)
  | .basis arg =>
      if session.step = .basis then
        (member fareBases arg).map fun basis =>
          next { session with step := .rate, values := { session.values with basis := some basis } }
      else none
  | .keep =>
      (keepValue session).bind fun keep =>
        match session.step with
        | .rate => some (afterRate session keep session.defaults.currency)
        | .weight => some (afterWeight session keep)
        | _ => none
  | .unit arg =>
      if session.step = .weight ∧ (arg ∈ weightUnits ∨ arg ∈ inheritedNames) then
        some (next { session with weightUnit := some arg })
      else none
  | .reason arg =>
      if session.step = .reason then
        (member fareChangeReasons arg).map fun reason =>
          next { session with step := .confirm, values := { session.values with changeReason := some reason } }
      else none
  | .pay arg =>
      if session.step = .pay then
        (member brokerPayModels arg).map fun model => next { session with step := .confirm, payModel := some model }
      else none

/-- A button pressed; one of another dialog changes nothing here. -/
def handleAction (service : TripsService) (chat : Chat) (id : String) : Chat :=
  if ownsAction id then
    match chat.stored with
    | none => ⟨none, ⟨none, "expired", none, none, ["tr:cr:1"]⟩⟩
    | some session => ((Action.read id).bind (onAction service session)).getD (next session)
  else chat

def cancelWords : List (List Char) :=
  [['ل', 'غ', 'و'], ['ا', 'ن', 'ص', 'ر', 'ا', 'ف'], ['c', 'a', 'n', 'c', 'e', 'l']]

/-- A text; without a session it is none of this dialog's. -/
def handleText (chat : Chat) (text : List Char) : Chat :=
  match chat.stored with
  | none => chat
  | some session =>
      if trim text ∈ cancelWords then finish session.purpose "cancelled"
      else
        match session.step with
        | .rate =>
            match readAmount text with
            | some amount => afterRate session amount.amount (some amount.currency)
            | none => ⟨some session, ask session (some "badRate")⟩
        | .weight =>
            match readWeight text session.unit with
            | some tons => afterWeight session tons
            | none => ⟨some session, ask session (some "badWeight")⟩
        | _ => next session

/-! ### Runs -/

/-- `start`, with the form loaded. -/
def start (purpose : FarePurpose) (form : TripFareForm) : Chat :=
  let session : FareSession :=
    { purpose := purpose
      step := if purpose.isDeliver ∧ form.agreed.isSome then .review else .basis
      values := .none
      defaults := form.values
      agreed := form.agreed
      broker := form.broker
      payModel := form.payModel
      weightUnit := none }
  ⟨some session, ask session (if purpose.isDeliver ∧ form.agreed = none then some "noAgreed" else none)⟩

/-- A message of the company; a button may reach the service as it answers at that time. -/
inductive Message where
  | action (id : String) (service : TripsService)
  | text (text : List Char)

def Chat.on (chat : Chat) : Message → Chat
  | .action id service => handleAction service chat id
  | .text text => handleText chat text

def Chat.run (chat : Chat) (messages : List Message) : Chat := messages.foldl Chat.on chat


/-! ### What is read -/

/-- The reason has no part in whether the values are accepted. -/
theorem read_changeReason (values : Answers) (reason : Option FareChangeReason) :
    ({ values with changeReason := reason } : Answers).read =
      values.read.map fun fare => { fare with changeReason := reason } := by
  obtain ⟨basis, rate, weightTons, currency, old⟩ := values
  have hoptional : ∀ {α : Type} (error : String) (a : Option α), (givenOf a).optional error = .ok a :=
    fun error a => by cases a <;> rfl
  simp only [Answers.read, readTripFare, Answers.input, hoptional]
  cases basis with
  | none => rfl
  | some basis =>
  cases rate with
  | none => rfl
  | some rate =>
  dsimp only [givenOf]
  split_ifs with hrate
  · rfl
  cases weightTons with
  | none => rfl
  | some weightTons =>
  dsimp only [Option.map_some, bind, Except.bind]
  split_ifs
  all_goals rfl

theorem readable_changeReason (values : Answers) (reason : Option FareChangeReason) :
    ({ values with changeReason := reason } : Answers).readable = values.readable := by
  unfold Answers.readable
  rw [read_changeReason]
  cases values.read <;> rfl

theorem readable_iff {values : Answers} : values.readable = true ↔ ∃ fare, values.read = .ok fare := by
  unfold Answers.readable
  cases values.read with
  | error error => simp [Except.isOk, Except.toBool]
  | ok fare => simp [Except.isOk, Except.toBool]

theorem readable_of_changed {session : FareSession} {values : Answers} (h : changed session values = true) :
    values.readable = true := by
  unfold changed at h
  rw [Bool.and_eq_true, Option.any_eq_true] at h
  obtain ⟨_, agreed, _, hfare⟩ := h
  cases hread : values.read with
  | error error =>
      rw [hread] at hfare
      cases hfare
  | ok fare => exact readable_iff.mpr ⟨fare, hread⟩

/-! ### One message -/

/-- The buttons of this dialog are its own. -/
theorem owns_of_read {id : String} {a : Action} (h : Action.read id = some a) : ownsAction id = true := by
  have hprefix : ∀ first : String, PREFIX.toList <+: first.toList → (argAfter first id).isSome = true →
      ownsAction id = true := by
    intro first hfirst harg
    unfold argAfter at harg
    split_ifs at harg with hpre
    · exact List.isPrefixOf_iff_prefix.mpr (hfirst.trans (List.isPrefixOf_iff_prefix.mp hpre))
    · cases harg
  unfold Action.read at h
  split_ifs at h with h1 h2 h3 h4 h5 h6
  · rw [h1]; decide
  · rw [h2]; decide
  · rw [h3]; decide
  · rw [h4]; decide
  · rw [h5]; decide
  · rw [h6]; decide
  · rcases Option.or_eq_some_iff.mp h with h | ⟨_, h⟩
    · obtain ⟨arg, harg, _⟩ := Option.map_eq_some_iff.mp h
      exact hprefix "tf:b:" (by decide) (by rw [harg]; rfl)
    rcases Option.or_eq_some_iff.mp h with h | ⟨_, h⟩
    · obtain ⟨arg, harg, _⟩ := Option.map_eq_some_iff.mp h
      exact hprefix "tf:u:" (by decide) (by rw [harg]; rfl)
    rcases Option.or_eq_some_iff.mp h with h | ⟨_, h⟩
    · obtain ⟨arg, harg, _⟩ := Option.map_eq_some_iff.mp h
      exact hprefix "tf:r:" (by decide) (by rw [harg]; rfl)
    · obtain ⟨arg, harg, _⟩ := Option.map_eq_some_iff.mp h
      exact hprefix "tf:p:" (by decide) (by rw [harg]; rfl)

theorem on_of_read (shown : Page) {service : TripsService} {session : FareSession} {id : String}
    {a : Action} {chat : Chat} (hread : Action.read id = some a) (h : onAction service session a = some chat) :
    (⟨some session, shown⟩ : Chat).on (.action id service) = chat := by
  simp [Chat.on, handleAction, owns_of_read hread, hread, h]

theorem run_append (chat : Chat) (messages : List Message) (message : Message) :
    chat.run (messages ++ [message]) = (chat.run messages).on message := by
  unfold Chat.run
  rw [List.foldl_append]
  rfl

end TransportBackend.FareDialog
