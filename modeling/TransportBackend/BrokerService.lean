import TransportBackend.BrokerStore
import TransportBackend.TripService

/-!
# A broker's credits, orders and companies: the services

`BrokerAccessService` and the request of a load that is charged on it, statement by statement:

* `requestCharged` — `CargoTripService.request` with the charge before its save and the refund of a
  save that throws;
* `submitPackageOrder`, `approveOrder`, `rejectOrder`, `grantRequests` — where credits come from;
* `selectCompanies`, `addInvitingCompany` — the companies a broker picks.

`BROKERS_OPEN` is a parameter: it is read once from the environment.
-/

namespace TransportBackend.BrokerService

open TransportBackend.AtomicProgram
open TransportBackend.TripStore (ServiceError CargoRequest UsageChannel CargoListingStatus)
open TransportBackend.TripService (RequestAnswers Services requestFor orBadRequest requestAllowed
  saveOrInsert reload notify)
open TransportBackend.BrokerStore

/-! ### Requests left -/

/-- `useRequest`. -/
def useRequest (brokersOpen : Bool) (userId : ℕ) : Broker Bool := do
  if brokersOpen then pure false
  else do
    let broker ← access (.isBroker userId)
    if broker then do
      let policy ← access .getPolicy
      if policy.packagesEnabled then do
        let updated ← access (.takeCredit userId)
        .refuseIf (updated = false) (.conflict "noCredit")
        pure true
      else pure false
    else pure false

/-- `refundRequest`. -/
def refundRequest (userId : ℕ) : Broker Unit := access (.refundCredit userId)

/-- `remaining`. -/
def remaining (userId : ℕ) : Broker ℤ := do
  let credit ← access (.findCredit userId)
  pure ((credit.map BrokerRequestCredit.remaining).getD 0)

/-- `grantRequests`. -/
def grantRequests (userId requests : ℕ) : Broker ℤ := do
  let broker ← access (.isBroker userId)
  .refuseIf (broker = false) (.notFound "واسطی با این شناسه پیدا نشد.")
  access (.grantCredit userId requests)
  remaining userId

/-! ### A request that is charged -/

/-- A charge that was taken is given back. -/
def refundIf (charged : Bool) (userId : ℕ) : Broker Unit :=
  if charged then refundRequest userId else pure ()

/-- The save of `request`: a charge is given back when it throws. -/
def saveOrRefund (charged : Bool) (userId : ℕ) (save : Broker CargoRequest) :
    Broker CargoRequest := do
  match ← save.attempt with
  | .ok saved => pure saved
  | .error e => do
      refundIf charged userId
      .throw e

/-- The charge of `request`, when the service has one. -/
def chargeIf (brokerAccess brokersOpen : Bool) (userId : ℕ) : Broker Bool :=
  if brokerAccess then useRequest brokersOpen userId else pure false

/-- The rest of `request` once nothing stands in its way: the charge, the save and the notice. -/
def requestSaved (cfg : Services) (brokersOpen : Bool) (answers : RequestAnswers)
    (driverUserId : ℕ) (listing : TripStore.CargoListing) (existing : Option CargoRequest)
    (change : CargoRequest → CargoRequest) : Broker CargoRequest := do
  let charged ← chargeIf cfg.brokerAccess brokersOpen driverUserId
  let saved ← saveOrRefund charged driverUserId (trip (saveOrInsert .request existing
    (.create listing.id driverUserId listing.publisherUserId) change))
  let full ← trip (reload saved.id)
  trip (notify listing.publisherUserId
    (if answers.broker then .newBrokerRequest else .newRequest) saved.id)
  pure full

/-- `request`, with the charge the trip service leaves to this one. -/
def requestCharged (cfg : Services) (brokersOpen : Bool) (answers : RequestAnswers)
    (driverUserId listingId : ℕ) (source : Option UsageChannel) : Broker CargoRequest := do
  let driverFor ← trip (requestFor answers)
  let found ← trip (TripStore.issue (.findListing listingId))
  let listing ← .orThrow ListingService.listingNotFound found
  .refuseIf (listing.status ≠ .opened) (.conflict "taken")
  .refuseIf (listing.publisherUserId = driverUserId) (.conflict "own")
  .refuseIf (cfg.brokerAccess ∧ ¬answers.canSee) (.conflict "notPurchased")
  let border ← trip (orBadRequest answers.border)
  let existing ← trip (TripStore.issue (.findByListingAndDriver listingId driverUserId))
  trip (requestAllowed existing listingId)
  requestSaved cfg brokersOpen answers driverUserId listing existing
    (CargoRequest.asked source driverFor border)

/-! ### Orders -/

/-- `MAX_PACKAGES`. -/
def maxPackages : ℕ := 100

/-- `brokerOrderTitle` names the open order in a refusal; the figures are Persian digits. -/
def openOrderError (title : BrokerAccessOrder → String) (open_ : BrokerAccessOrder) : ServiceError :=
  .conflict ("رسید قبلی شما برای " ++ title open_ ++ " در حال بررسی است.")

/-- The order of some packages at the policy's size and price. -/
def packageOrder (policy : BrokerAccessPolicy) (userId packages : ℕ) (receiptPath : String) :
    BrokerAccessOrder where
  id := 0
  userId := userId
  kind := .package
  companyUserIds := []
  requests := some (packages * policy.packageSize)
  amount := policy.packagePrice * packages
  currency := policy.currency
  status := .receiptSubmitted
  receiptPath := receiptPath
  rejectionReason := none
  reviewedBy := none
  reviewedAt := none

/-- `submitPackageOrder`; `packages` is any number the form sends, whole or not. -/
def submitPackageOrder (title : BrokerAccessOrder → String) (userId : ℕ) (packages : ℚ)
    (receiptPath : String) : Broker BrokerAccessOrder := do
  let broker ← access (.isBroker userId)
  .refuseIf (broker = false) (.badRequest "بسته‌ی درخواست فقط برای حساب واسط است.")
  let policy ← access .getPolicy
  .refuseIf (policy.packagesEnabled = false)
    (.badRequest "درخواست بار الان رایگان است و خرید لازم ندارد.")
  .refuseIf (packages.den ≠ 1 ∨ packages < 1 ∨ (maxPackages : ℚ) < packages)
    (.badRequest "تعداد بسته معتبر نیست.")
  let found ← access (.findOpenOrder userId)
  match found with
  | some open_ => .throw (openOrderError title open_)
  | none => do
      let saved ← access (.saveOrder (packageOrder policy userId packages.num.toNat receiptPath))
      .orThrow .queryFailed saved

/-- `dataSource.transaction`: what throws is rolled back, and the order's row is free again. -/
def transaction {α : Type} (orderId : ℕ) (body : Broker α) : Broker α := do
  match ← body.attempt with
  | .ok a => pure a
  | .error e => do
      access (.rollback orderId)
      .throw e

/-- The order, locked and undecided. -/
def lockForApproval (orderId : ℕ) : Broker BrokerAccessOrder := do
  let found ← access (.lockOrder orderId)
  let order ← .orThrow (.notFound "سفارش پیدا نشد.") found
  .refuseIf (order.status ≠ .receiptSubmitted) (.conflict "این سفارش قبلاً بررسی شده است.")
  pure order

/-- `[...new Set(ids)]`. -/
def distinct (ids : List ℕ) : List ℕ := (ids.reverse.dedup).reverse

/-- `addCompanies`, as far as it reads: the pick with an older purchase's companies. -/
def addCompanies (order : BrokerAccessOrder) (now : ℕ) : Broker BrokerAccessPeriod := do
  let current ← access (.currentSelection order.userId now)
  match current with
  | some p => pure (p.picking (distinct (p.companyUserIds ++ order.companyUserIds)))
  | none => pure (AccessStore.newPeriod order.userId (distinct order.companyUserIds) now order.id)

/-- What an approval adds to the broker's pick: a package or an old suggestion nothing. -/
def pickOf (order : BrokerAccessOrder) (now : ℕ) : Broker (Option BrokerAccessPeriod) :=
  if order.kind = .package ∨ order.kind = .suggestion then pure none
  else do
    let pick ← addCompanies order now
    pure (some pick)

/-- The transaction of `approveOrder`. -/
def approveLocked (orderId adminUserId now : ℕ) : Broker BrokerAccessOrder :=
  transaction orderId do
    let order ← lockForApproval orderId
    let selection ← pickOf order now
    let saved ← access (.commitApproval
      { order := order, adminUserId := adminUserId, now := now, selection := selection })
    .refuseIf (saved = false) .queryFailed
    pure order

/-- `approveOrder`. -/
def approveOrder (orderId adminUserId : ℕ) : Broker ℤ := do
  let now ← dateNow
  let order ← approveLocked orderId adminUserId now
  remaining order.userId

/-- `rejectOrder`. -/
def rejectOrder (orderId adminUserId : ℕ) (reason : String) : Broker Unit := do
  let now ← dateNow
  let affected ← access (.rejectSubmitted orderId adminUserId reason now)
  .refuseIf (affected = false) (.conflict "سفارشی در انتظار بررسی با این شناسه نیست.")
  let _ ← access (.findOrder orderId)
  pure ()

/-! ### Companies -/

/-- The parents, and the companies a parent invited. -/
def pickable (companies : List Company) : List ℕ :=
  (companies.filter fun c => c.isParentCompany || c.invitedByCompanyUserId.any fun id =>
    companies.any fun p => p.isParentCompany && p.userId = id).map Company.userId

/-- `companyList`. -/
def companyList : Broker (List ℕ) := do
  let companies ← access .listCompanies
  pure (pickable companies)

/-- The figure in `maxCompanies.toLocaleString('fa-IR')` is written by `faNumber`. -/
def tooManyError (faNumber : ℕ → String) (maxCompanies : ℕ) : ServiceError :=
  .badRequest ("حداکثر " ++ faNumber maxCompanies ++ " شرکت می‌توانید انتخاب کنید.")

/-- `selectCompanies`, without the page it returns. -/
def selectCompanies (faNumber : ℕ → String) (userId : ℕ) (companyUserIds : List ℕ) (now : ℕ) :
    Broker Unit := do
  let broker ← access (.isBroker userId)
  .refuseIf (broker = false) (.badRequest "انتخاب شرکت فقط برای حساب واسط است.")
  let policy ← access .getPolicy
  let maxCompanies ← .orThrow
    (.badRequest "بار همه‌ی شرکت‌ها را می‌بینید و انتخاب لازم نیست.") policy.maxCompanies
  .refuseIf (distinct companyUserIds = []) (.badRequest "دست‌کم یک شرکت انتخاب کنید.")
  .refuseIf (maxCompanies < (distinct companyUserIds).length) (tooManyError faNumber maxCompanies)
  let known ← companyList
  .refuseIf (∃ id ∈ distinct companyUserIds, id ∉ known)
    (.badRequest "یکی از شرکت‌های انتخاب‌شده پیدا نشد.")
  access (.commitSelection userId (distinct companyUserIds) now)

/-- The part of `addInvitingCompany` once there is a limit. -/
def joinPick (faNumber : ℕ → String) (userId companyUserId now maxCompanies : ℕ) : Broker Bool := do
  let current ← access (.currentSelection userId now)
  let picked := (current.map BrokerAccessPeriod.companyUserIds).getD []
  if companyUserId ∈ picked ∨ maxCompanies ≤ picked.length then pure false
  else do
    match ← (selectCompanies faNumber userId (picked ++ [companyUserId]) now).attempt with
    | .ok _ => pure true
    | .error _ => pure false

/-- `addInvitingCompany`. -/
def addInvitingCompany (faNumber : ℕ → String) (userId companyUserId now : ℕ) : Broker Bool := do
  let policy ← access .getPolicy
  match policy.maxCompanies with
  | some maxCompanies => joinPick faNumber userId companyUserId now maxCompanies
  | none => pure false

/-- `dropCompany`. -/
def dropCompany (userId companyUserId : ℕ) : Broker Unit := access (.dropCompany userId companyUserId)

end TransportBackend.BrokerService
