import TransportBackend.ListingService

/-!
# The trip service

`CargoTripService` with the parts of `TripFareService` and `BrokerAccessService` it calls, as programs
over the commands of `TripStore`: a driver's request and its cancellation, the company's answer, the
load handed to one driver, delivery, and the trip called off.

What the service asks of the users' subsystems (is this a broker, is it a driver, may it see the
load, which border was picked, was a request charged) is an argument of the method here.  A broker's
credits are theirs too, so `refundRequest` is left out.  Texts, web sockets and buttons are not
modelled; of a notice its receiver, its key and its request are.
-/

namespace TransportBackend.TripService

open TransportBackend.AtomicProgram
open TransportBackend.Binary64
open TransportBackend.TripFareRules
open TransportBackend.TripStore
open TransportBackend.ListingService

/-- The optional services the trip service was built with. -/
structure Services where
  fares : Bool
  brokerAccess : Bool
  deriving DecidableEq, Repr

/-! ### Saves and notices -/

/-- `requests.save` of a loaded row: a unique index that refuses it is an error of the query. -/
def saveRequest (by_ : Writer) (read entity : CargoRequest) : Trip Unit := do
  let result ← issue (.saveRequest by_ read entity)
  .refuseIf (result = .uniqueViolation) .queryFailed

/-- `requests.save` of a row just created. -/
def insertRequest (by_ : Writer) (entity : CargoRequest) : Trip CargoRequest := do
  let result ← issue (.insertRequest by_ entity)
  .orThrow .queryFailed result

/-- `row ??= create(…)`, then the row changed and saved: the loaded row, or the new one. -/
def saveOrInsert (by_ : Writer) (existing : Option CargoRequest) (created : CargoRequest)
    (change : CargoRequest → CargoRequest) : Trip CargoRequest :=
  match existing with
  | some old => do
      saveRequest by_ old (change old)
      pure (change old)
  | none => insertRequest by_ (change created)

/-- `saveTrip`: the unique index that refuses a second trip is answered as the load being taken. -/
def saveTrip (by_ : Writer) (read entity : CargoRequest) : Trip Unit := do
  let result ← issue (.saveRequest by_ read entity)
  .refuseIf (result = .uniqueViolation) (.conflict "taken")

def notify (userId : ℕ) (key : NoticeKey) (requestId : ℕ) : Trip Unit :=
  issue (.notify userId key requestId)

def requestNotFound : ServiceError := .notFound "Cargo request not found."

/-- `(await this.requests.findById(id))!`. -/
def reload (requestId : ℕ) : Trip CargoRequest := do
  let found ← issue (.findRequest requestId)
  .orThrow requestNotFound (found.map Prod.fst)

/-- `owned`: the request with its load, when this user may act on it. -/
def owned (requestId : ℕ) (allowed : CargoRequest → Bool) : Trip (CargoRequest × CargoListing) := do
  let found ← issue (.findRequest requestId)
  .orThrow requestNotFound (found.filter fun rl => allowed rl.1)

/-! ### The fare service -/

/-- `TripFareService.read`. -/
def readFare (input : Option TripFareInput) : Trip TripFareValues :=
  match readTripFare input with
  | .ok values => pure values
  | .error message => .throw (.badRequest message)

/-- The fare a method was given, checked before anything changes; `kept` says whether it is asked
for. -/
def fareIf (kept : Bool) (input : Option TripFareInput) : Trip (Option TripFareValues) :=
  if kept then do
    let fare ← readFare input
    pure (some fare)
  else pure none

/-- `TripFareService.upsert`. -/
def upsert (requestId : ℕ) (stage : TripFareStage) (values : TripFareValues) (userId : ℕ) :
    Trip Unit := do
  let row ← issue (.findFare requestId stage)
  let result ← issue (.saveFare row.isNone (TripFare.store requestId stage values userId))
  .refuseIf (result = .uniqueViolation) .queryFailed

/-- `TripFareService.recordAgreed`: once the trip has started, what was agreed is not rewritten. -/
def recordAgreed (request : CargoRequest) (values : TripFareValues) (userId : ℕ) : Trip Unit := do
  runIf request.onTrip do
    let row ← issue (.findFare request.id .agreed)
    .refuseIf row.isSome (.conflict "fareLocked")
  upsert request.id .agreed { values with changeReason := none } userId

def changeReasonError : String :=
  "کرایه یا وزن با مقدار توافقی فرق دارد؛ دلیل تغییر را انتخاب کنید."

/-- The delivered values differ from the agreed ones, when there are any. -/
def deliveryChanged (agreed : Option TripFare) (values : TripFareValues) : Bool :=
  agreed.any fun row => fareChanged row.view values

/-- The values a delivery keeps: a reason only where something changed. -/
def deliveredValues (agreed : Option TripFare) (values : TripFareValues) : TripFareValues :=
  { values with
    changeReason := if deliveryChanged agreed values then values.changeReason else none }

/-- `TripFareService.recordDelivered`. -/
def recordDelivered (request : CargoRequest) (values : TripFareValues) (userId : ℕ) :
    Trip Unit := do
  let agreed ← issue (.findFare request.id .agreed)
  .refuseIf (deliveryChanged agreed values ∧ values.changeReason = none)
    (.badRequest changeReasonError)
  upsert request.id .delivered (deliveredValues agreed values) userId

/-- The agreed values, when the company gave them. -/
def recordAgreedIfGiven (request : CargoRequest) (fare : Option TripFareValues) (userId : ℕ) :
    Trip Unit :=
  match fare with
  | some fare => recordAgreed request fare userId
  | none => pure ()

/-- The delivered values, when fares are kept. -/
def recordDeliveredIfGiven (request : CargoRequest) (fare : Option TripFareValues) (userId : ℕ) :
    Trip Unit :=
  match fare with
  | some fare => recordDelivered request fare userId
  | none => pure ()

/-- `TripFareService.lastPayModel`. -/
def lastPayModel (companyUserId : ℕ) : Trip BrokerPayModel := do
  let last ← issue (.lastPayModel companyUserId)
  pure (last.getD .commission)

/-! ### The broker's share -/

/-- `LOCAL_TTL_MS`. -/
def localTtlMs : ℕ := 5000

/-- The policy read from its setting and kept for a while. -/
def readPolicy : Trip ℕ := do
  let percent ← issue .readSetting
  let now ← dateNow
  let _ ← issue (.writePolicyCache (some (percent, now + localTtlMs)))
  pure percent

/-- `getPolicy().commissionPercent`. -/
def getPolicy : Trip ℕ := do
  let cached ← issue .readPolicyCache
  let now ← dateNow
  match cached.filter (now < ·.2) with
  | some entry => pure entry.1
  | none => readPolicy

/-- `setPolicy`, as far as the commission goes. -/
def setPolicy (commissionPercent : ℕ) : Trip ℕ := do
  let _ ← issue (.saveSetting commissionPercent)
  let _ ← issue (.writePolicyCache none)
  getPolicy

/-- The number a string of digits stands for. -/
def digitsValue (digits : List Char) : ℕ := digits.foldl (fun n c => 10 * n + (c.toNat - 48)) 0

/-- `fareAmount`: a bare number, when it is a safe integer. -/
def fareAmount (fare : Option String) : Option ℚ :=
  fare.bind fun text =>
    let digits := text.toList
    if digits = [] ∨ ¬digits.all Char.isDigit then none
    else some (binary64 (digitsValue digits)) |>.filter isSafeInteger

/-- `brokerCommission`: on the broker's own fare, when the company confirmed none. -/
def brokerCommission (fare : Option String) (percent : ℚ) : Option ℤ :=
  (fareAmount fare).map (commissionOf · percent)

/-- The columns `settleBroker` assigns at this percent. -/
def settled (request : CargoRequest) (fare : Option TripFareValues) (percent : ℕ) : CargoRequest :=
  let model := request.brokerPayModel.getD .commission
  let driverFare := request.forDriver.bind BrokerDriver.fare
  let earning : BrokerEarning :=
    match fare with
    | none =>
        { commission :=
            if model = .commission then brokerCommission driverFare (percentNumber percent)
            else none
          margin := none }
    | some fare =>
        brokerEarning model fare.total fare.currency (fareAmount driverFare)
          (percentNumber percent)
  { request with
    brokerPayModel := some model
    brokerCommissionPercent := if model = .commission then some percent else none
    brokerCommission := earning.commission
    brokerMargin := earning.margin.map Rat.num }

/-- `settleBroker`. -/
def settleBroker (request : CargoRequest) (fare : Option TripFareValues) : Trip CargoRequest := do
  let percent ← getPolicy
  pure (settled request fare percent)

/-- A broker's trip is settled, a driver's own is not. -/
def settleIf (broker : Bool) (request : CargoRequest) (fare : Option TripFareValues) :
    Trip CargoRequest :=
  if broker then settleBroker request fare else pure request

/-! ### The driver's side -/

/-- What `request` asks elsewhere, with the answers: the broker check, the driver a broker named, the
profile fields a driver still misses, the company's visibility, the border, the charge. -/
structure RequestAnswers where
  broker : Bool
  driverFor : Except String BrokerDriver
  missing : List String
  canSee : Bool
  border : Except String (Option String)
  useRequest : Except ServiceError Bool

def missingError (missing : List String) : String :=
  "برای درخواست بار اول در پروفایل راننده این‌ها را پر کنید: " ++ String.intercalate "، " missing ++ "."

/-- An answer that may be a refusal. -/
def orBadRequest {α : Type} : Except String α → Trip α
  | .ok a => pure a
  | .error message => .throw (.badRequest message)

/-- The driver a broker names; for a driver's own request, none once its profile is filled. -/
def requestFor (answers : RequestAnswers) : Trip (Option BrokerDriver) :=
  if answers.broker then do
    let driver ← orBadRequest answers.driverFor
    pure (some driver)
  else do
    .refuseIf (answers.missing ≠ []) (.badRequest (missingError answers.missing))
    pure none

/-- The statuses in which a driver's request waits or runs. -/
def waitsOrRuns (r : CargoRequest) : Bool :=
  r.status = .pending || r.status = .offered || r.status = .accepted

/-- The charge of a request on a broker's package. -/
def charge (cfg : Services) (answers : RequestAnswers) : Trip Unit :=
  match (if cfg.brokerAccess then answers.useRequest else .ok false) with
  | .ok _ => pure ()
  | .error e => .throw e

/-- The checks of `request` on the driver's row for the load, and on the offers of the load. -/
def requestAllowed (existing : Option CargoRequest) (listingId : ℕ) : Trip Unit := do
  .refuseIf (existing.any waitsOrRuns) (.conflict "already")
  let now ← dateNow
  let offer ← issue (.findActiveOffer listingId now)
  .refuseIf offer.isSome (.conflict "reserved")
  .refuseIf (existing.any (·.status = .rejected)) (.conflict "rejected")
  .refuseIf (existing.any (·.status = .tripCancelled)) (.conflict "tripCancelled")

/-- `request`: the driver asks for a load; asking again reopens the same row. -/
def request (cfg : Services) (answers : RequestAnswers) (driverUserId listingId : ℕ)
    (source : Option UsageChannel) : Trip CargoRequest := do
  let driverFor ← requestFor answers
  let found ← issue (.findListing listingId)
  let listing ← .orThrow listingNotFound found
  .refuseIf (listing.status ≠ .opened) (.conflict "taken")
  .refuseIf (listing.publisherUserId = driverUserId) (.conflict "own")
  .refuseIf (cfg.brokerAccess ∧ ¬answers.canSee) (.conflict "notPurchased")
  let border ← orBadRequest answers.border
  let existing ← issue (.findByListingAndDriver listingId driverUserId)
  requestAllowed existing listingId
  charge cfg answers
  let saved ← saveOrInsert .request existing
    (.create listingId driverUserId listing.publisherUserId) (CargoRequest.asked source driverFor border)
  let full ← reload saved.id
  notify listing.publisherUserId
    (if answers.broker then .newBrokerRequest else .newRequest) saved.id
  pure full

/-- `cancel`: the driver takes a waiting request back. -/
def cancel (broker : Bool) (driverUserId requestId : ℕ) : Trip CargoRequest := do
  let (request, _) ← owned requestId (·.driverUserId = driverUserId)
  .refuseIf (request.status ≠ .pending) (.conflict "notPending")
  saveRequest .cancel request request.withdrawn
  let full ← reload request.id
  notify full.companyUserId (if broker then .brokerRequestCancelled else .requestCancelled) full.id
  pure full

/-! ### The company's answer -/

/-- `completeAssignment`: the load is taken and the other waiting requests are turned down. -/
def completeAssignment (request : CargoRequest) : Trip Unit := do
  setStatus (some request.id) request.companyUserId request.listingId .taken
  let others ← issue (.findOtherPending request.listingId request.id)
  .forEach (fun other => do
    let now ← dateNow
    saveRequest .completeAssignment other (other.turnedDown now)) others

/-- What the company gives with an acceptance. -/
structure Deal where
  fare : Option TripFareInput
  payModel : Option BrokerPayModel
  deriving DecidableEq, Repr

/-- How the broker of an accepted request is paid: as picked, else as last time. -/
def dealPayModel (cfg : Services) (accept : Bool) (deal : Deal) (request : CargoRequest) :
    Trip (Option BrokerPayModel) :=
  if accept && request.forDriver.isSome then
    match deal.payModel with
    | some picked => pure (some picked)
    | none =>
        if cfg.fares then do
          let last ← lastPayModel request.companyUserId
          pure (some last)
        else pure (some .commission)
  else pure request.brokerPayModel

/-- No offer of the load is waiting for its driver. -/
def refuseReserved (listingId : ℕ) : Trip Unit := do
  let now ← dateNow
  let offer ← issue (.findActiveOffer listingId now)
  .refuseIf offer.isSome (.conflict "reserved")

/-- `decide`: the company accepts or turns down a waiting request. -/
def decide (cfg : Services) (broker : Bool) (companyUserId requestId : ℕ) (accept : Bool)
    (deal : Deal) : Trip CargoRequest := do
  let fare ← fareIf (accept && cfg.fares) deal.fare
  let (request, listing) ← owned requestId (·.companyUserId = companyUserId)
  .refuseIf (request.status ≠ .pending) (.conflict "notPending")
  .refuseIf (accept ∧ listing.status ≠ .opened) (.conflict "taken")
  runIf accept (refuseReserved request.listingId)
  recordAgreedIfGiven request fare companyUserId
  let payModel ← dealPayModel cfg accept deal request
  let now ← dateNow
  let decided := request.decided accept payModel now
  saveTrip .decide request decided
  notify request.driverUserId
    (if accept then (if broker then .acceptedBroker else .accepted) else .rejected) request.id
  runIf accept (completeAssignment decided)
  pure decided

/-! ### A load handed to one driver -/

/-- `ownOpenListing`. -/
def ownOpenListing (companyUserId listingId : ℕ) : Trip CargoListing := do
  let found ← issue (.findListing listingId)
  let listing ← .orThrow listingNotFound (found.filter (·.publisherUserId = companyUserId))
  .refuseIf (listing.status ≠ .opened) (.conflict "taken")
  pure listing

/-- `offer`: the company hands the load to a driver, whatever row the driver had for it. -/
def offer (cfg : Services) (isDriver : Bool) (companyUserId listingId driverUserId : ℕ)
    (fareInput : Option TripFareInput) : Trip CargoRequest := do
  let fare ← fareIf (fareInput.isSome && cfg.fares) fareInput
  let listing ← ownOpenListing companyUserId listingId
  .refuseIf (driverUserId = companyUserId) (.conflict "own")
  .refuseIf (isDriver = false) (.conflict "notDriver")
  refuseReserved listing.id
  let existing ← issue (.findByListingAndDriver listing.id driverUserId)
  let now ← dateNow
  let saved ← saveOrInsert .offer existing (.create listing.id driverUserId companyUserId)
    (CargoRequest.handed now)
  let full ← reload saved.id
  recordAgreedIfGiven full fare companyUserId
  notify driverUserId .offer saved.id
  pure full

/-- `expire`. -/
def expire (request : CargoRequest) : Trip Unit := do
  saveRequest .expire request request.lapsed
  notify request.companyUserId .offerExpiredCompany request.id
  notify request.driverUserId .offerExpiredDriver request.id

/-- `respondOffer`: the driver takes the load handed to it, or not. -/
def respondOffer (driverUserId requestId : ℕ) (accept : Bool) : Trip CargoRequest := do
  let (request, _) ← owned requestId (·.driverUserId = driverUserId)
  .refuseIf (request.status ≠ .offered) (.conflict "notOffered")
  let now ← dateNow
  runIf (request.offerExpiresAt.any (· < now)) do
    expire request
    .throw (.conflict "offerExpired")
  let now ← dateNow
  let answered := request.answered accept now
  saveTrip .respondOffer request answered
  runIf accept (completeAssignment answered)
  notify request.companyUserId (if accept then .offerAccepted else .offerDeclined) request.id
  pure answered

/-- The `take` of `findExpiredOffers`. -/
def expiredTake : ℕ := 100

/-- `expireOffers`: the sweep, over rows read once. -/
def expireOffers : Trip ℕ := do
  let now ← dateNow
  let expired ← issue (.findExpiredOffers now expiredTake)
  .forEach expire expired
  pure expired.length

/-! ### Delivery -/

/-- A day in milliseconds. -/
def dayMs : ℕ := 24 * 60 * 60 * 1000

/-- `remindDeliveries`: rows read once, each saved and its company told. -/
def remindDeliveries (days : ℕ) : Trip ℕ := do
  let now ← dateNow
  let due ← issue (.findTripsDueDeliveryReminder ((now : ℤ) - days * dayMs))
  .forEach (fun request => do
    saveRequest .remindDeliveries request (request.reminded now)
    notify request.companyUserId
      (if request.deliveryReportedAt.isSome then .confirmReminder else .deliveryReminder)
      request.id) due
  pure due.length

/-- The driver's half of `deliver`: it reports, the trip stays active. -/
def reportDelivery (broker : Bool) (request : CargoRequest) : Trip CargoRequest :=
  if request.deliveryReportedAt.isSome then pure request
  else do
    let now ← dateNow
    let reported := request.reported now
    saveRequest .reportDelivery request reported
    notify request.companyUserId
      (if broker then .deliveryReportedBroker else .deliveryReported) request.id
    pure reported

/-- The company's half of `deliver`. -/
def confirmDelivery (cfg : Services) (userId : ℕ) (fareInput : Option TripFareInput)
    (request : CargoRequest) : Trip CargoRequest := do
  let fare ← fareIf cfg.fares fareInput
  recordDeliveredIfGiven request fare userId
  let now ← dateNow
  let delivered := request.confirmed now
  let entity ← settleIf (request.forDriver.isSome && cfg.brokerAccess) delivered fare
  saveRequest (.deliver fare) request entity
  notify request.driverUserId
    (if request.deliveryReportedAt.isSome then .deliveryConfirmed else .deliveredByCompany)
    request.id
  pure entity

/-- `deliver`: the driver reports it, the company confirms it. -/
def deliver (cfg : Services) (broker : Bool) (userId requestId : ℕ)
    (fareInput : Option TripFareInput) : Trip CargoRequest := do
  let (request, _) ← owned requestId
    (fun r => r.driverUserId = userId || r.companyUserId = userId)
  .refuseIf (request.status ≠ .accepted) (.conflict "notActive")
  if userId = request.driverUserId then reportDelivery broker request
  else confirmDelivery cfg userId fareInput request

/-- The requests turned down since the trip started wait again. -/
def reviveTurnedDown (request : CargoRequest) (startedAt : Option ℕ) : Trip Unit :=
  match startedAt with
  | none => pure ()
  | some since => do
      let others ← issue (.findTakenOver request.listingId request.id since)
      .forEach (fun other => saveRequest .revive other other.waitingAgain) others

/-- `cancelTrip`: the drivers turned down because this trip started wait again, and the load is open
again. -/
def cancelTrip (companyUserId requestId : ℕ) : Trip CargoRequest := do
  let (request, _) ← owned requestId (·.companyUserId = companyUserId)
  .refuseIf (request.status ≠ .accepted) (.conflict "notActive")
  let startedAt := request.decidedAt
  let now ← dateNow
  let cancelled := request.calledOff now
  saveRequest .cancelTrip request cancelled
  reviveTurnedDown request startedAt
  setStatus none companyUserId request.listingId .opened
  notify request.driverUserId .tripCancelled request.id
  pure cancelled

/-- `rejectDeliveryReport`. -/
def rejectDeliveryReport (companyUserId requestId : ℕ) : Trip CargoRequest := do
  let (request, _) ← owned requestId (·.companyUserId = companyUserId)
  .refuseIf (request.status ≠ .accepted) (.conflict "notActive")
  .refuseIf (request.deliveryReportedAt = none) (.conflict "notReported")
  let kept := request.unreported
  saveRequest .rejectDeliveryReport request kept
  notify request.driverUserId .deliveryRejected request.id
  pure kept

end TransportBackend.TripService
