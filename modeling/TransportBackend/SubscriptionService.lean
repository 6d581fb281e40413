import TransportBackend.SubscriptionStore

/-!
# Buying, approving and rewarding subscriptions

The methods of `AccountProvisioningService`, `PaymentReceiptService`, `ReceiptAnalysisWorker` and
`SubscriptionRewardService`, statement by statement:

* `approveOrder`, `rejectReceipt` — transactions that hold the order's row;
* `submitReceipt`, `processReceipt`, `tick` — a receipt is saved with its order, claimed, read by the
  analyzer and saved again;
* `grantEarned` — one transaction a tier, under the user's advisory lock.

`submitReceipt` starts `processReceipt` in the background and does not wait for it; a run of the
system starts that call like any other, so it is not part of the method here.
-/

namespace TransportBackend.SubscriptionService

open TransportBackend.AtomicProgram
open TransportBackend.Binary64
open TransportBackend.SubscriptionStore

/-! ### Dates and texts -/

/-- `DAY_MS`. -/
def dayMs : ℤ := 86400000

/-- The server's time zone: the wall clock of an instant, and the instant of a wall clock time. -/
structure Zone where
  toLocal : ℤ → ℤ
  toInstant : ℤ → ℤ

/-- A server whose clock shows universal time. -/
def Zone.utc : Zone := ⟨id, id⟩

/-- `calculateExpireDate`: `setDate(getDate() + durationDays)`, the same wall clock time that many
days later. -/
def calculateExpireDate (zone : Zone) (startAt durationDays : ℤ) : ℤ :=
  zone.toInstant (zone.toLocal startAt + durationDays * dayMs)

/-- `\s`. -/
def isSpace (c : Char) : Bool :=
  c.toNat ∈ [0x9, 0xa, 0xb, 0xc, 0xd, 0x20, 0xa0, 0x1680, 0x2028, 0x2029, 0x202f, 0x205f, 0x3000,
    0xfeff] || (0x2000 ≤ c.toNat && c.toNat ≤ 0x200a)

/-- `trim()`. -/
def trim (text : String) : String :=
  .ofList ((text.toList.dropWhile isSpace).reverse.dropWhile isSpace).reverse

/-- `+98…` and `98…` are written `0…`. -/
def withoutCountryCode : List Char → String
  | '+' :: '9' :: '8' :: rest => .ofList ('0' :: rest)
  | '9' :: '8' :: rest => .ofList ('0' :: rest)
  | value => .ofList value

/-- `AccountProvisioningService.normalizePhone`. -/
def normalizePhone (phone : String) : String :=
  withoutCountryCode (phone.toList.filter fun c => !isSpace c && c ≠ '-')

/-- `SubscriptionOrderService.normalizePhone`. -/
def normalizeOrderPhone (phone : String) : String :=
  withoutCountryCode (phone.toList.filter fun c => !isSpace c && c ∉ ['(', ')', '-'])

/-- `isValidIranMobile`: `/^09\d{9}$/`. -/
def isValidIranMobile (phone : String) : Bool :=
  match phone.toList with
  | '0' :: '9' :: rest => rest.length = 9 && rest.all Char.isDigit
  | _ => false

/-- `getRoleName`. -/
def getRoleName : AccountType → String
  | .driver => "DRIVER"
  | .company => "COMPANY"
  | .broker => "BROKER"
  | .factory => "FACTORY"

/-! ### The columns each method assigns -/

/-- In `approveOrder`. -/
def PaymentReceipt.approvedBy (adminUserId : ℕ) (now : ℤ) (r : PaymentReceipt) : PaymentReceipt :=
  { r with status := .approved, reviewedByUserId := some adminUserId, reviewedAt := some now }

/-- In `approveOrder`; the buyer is filled in when the transaction commits. -/
def SubscriptionOrder.approvedBy (adminUserId : ℕ) (now : ℤ) (o : SubscriptionOrder) :
    SubscriptionOrder :=
  { o with status := .approved, approvedByUserId := some adminUserId, approvedAt := some now }

/-- In `rejectReceipt`. -/
def PaymentReceipt.rejectedBy (adminUserId : ℕ) (reason : String) (now : ℤ) (r : PaymentReceipt) :
    PaymentReceipt :=
  { r with
    status := .rejected
    reviewedByUserId := some adminUserId
    reviewedAt := some now
    reviewNote := some reason }

/-- In `rejectReceipt`. -/
def SubscriptionOrder.rejectedFor (reason : String) (now : ℤ) (o : SubscriptionOrder) :
    SubscriptionOrder :=
  { o with status := .rejected, rejectedAt := some now, rejectionReason := some reason }

/-- In `analyzeReceipt`: the analyzer reports rials. -/
def PaymentReceipt.analyzedAs (order : SubscriptionOrder) (result : ReceiptAnalysisResult)
    (duplicate : Bool) (now : ℤ) (r : PaymentReceipt) : PaymentReceipt :=
  { r with
    extractedAmount := result.amount
    trackingCode := result.trackingCode
    amountMatched :=
      some (result.amount = some (order.amount * if order.currency = "IRT" then 10 else 1))
    duplicateTrackingCode := some duplicate
    status := .needsReview
    analyzedAt := some now }

/-- `new PaymentReceipt()` in `submitReceipt`. -/
def PaymentReceipt.submitted (imageUrl : String) (providerFileId : Option String) :
    PaymentReceipt where
  id := 0
  orderId := 0
  providerFileId := providerFileId
  imageUrl := imageUrl
  status := .pendingAnalysis
  analysisAttempts := 0
  analysisStartedAt := none
  extractedAmount := none
  trackingCode := none
  amountMatched := none
  duplicateTrackingCode := none
  analyzedAt := none
  reviewedByUserId := none
  reviewedAt := none
  reviewNote := none
  createdAt := 0

/-! ### Approving and rejecting -/

/-- `dataSource.transaction`: what throws is rolled back, and the order's row is free again. -/
def transaction {α : Type} (orderId : ℕ) (body : Billing α) : Billing α := do
  match ← body.attempt with
  | .ok a => pure a
  | .error e => do
      issue (.rollback orderId)
      .throw e

/-- Steps 1 and 2: the order, locked and neither approved nor cancelled. -/
def lockForApproval (orderId : ℕ) : Billing (SubscriptionOrder × Option SubscriptionPlan) := do
  let found ← issue (.lockOrder orderId)
  let locked ← .orThrow (.notFound "Subscription order not found") found
  .refuseIf (locked.1.status = .approved)
    (.conflict "Subscription order has already been approved")
  .refuseIf (locked.1.status = .cancelled)
    (.badRequest "Cancelled subscription order cannot be approved")
  pure locked

/-- Steps 3 and 4: the receipt, of this order. -/
def ownReceipt (order : SubscriptionOrder) (receiptId : ℕ) : Billing PaymentReceipt := do
  let found ← issue (.findOneReceipt receiptId)
  let receipt ← .orThrow (.notFound "Payment receipt not found") found
  .refuseIf (receipt.orderId ≠ order.id)
    (.badRequest "Payment receipt does not belong to this subscription order")
  pure receipt

/-- Step 5: the receipt is undecided. -/
def refuseDecided (receipt : PaymentReceipt) : Billing Unit := do
  .refuseIf (receipt.status = .rejected) (.badRequest "Rejected payment receipt cannot be approved")
  .refuseIf (receipt.status = .approved) (.conflict "Payment receipt has already been approved")

/-- Step 6: no other approved receipt has its tracking code. -/
def refuseTwin (receipt : PaymentReceipt) : Billing Unit :=
  match receipt.trackingCode with
  | none => pure ()
  | some code => do
      let twin ← issue (.findApprovedTwin code receipt.id)
      .refuseIf twin.isSome (.conflict "This payment tracking code has already been used")

/-- The user a bot link names. -/
def linkedUser : Option BotLink → Billing (Option User)
  | some link => issue (.findUser link.userId)
  | none => pure none

/-- `savedUser ??=`: the linked user, or the one with this phone. -/
def orByPhone (phone : String) : Option User → Billing (Option User)
  | some user => pure (some user)
  | none => issue (.findUserByPhone phone)

/-- A known buyer is active; a new one has only a phone. -/
def asBuyer (phone : String) : Option User → Billing Buyer
  | some user => do
      .refuseIf (user.active = false) (.badRequest "The buyer account is inactive")
      pure (.known user)
  | none => pure (.created phone)

/-- Step 7: the role of the account, and the buyer. -/
def resolveBuyer (order : SubscriptionOrder) : Billing (Role × Buyer) := do
  let found ← issue (.findActiveRole (getRoleName order.accountType))
  let role ← .orThrow
    (.notFound ("Active role \"" ++ getRoleName order.accountType ++ "\" not found")) found
  let link ← issue (.findBotLink order.providerUserId)
  let linked ← linkedUser link
  let user ← orByPhone (normalizePhone order.phoneNumber) linked
  let buyer ← asBuyer (normalizePhone order.phoneNumber) user
  pure (role, buyer)

/-- A new account has no role yet. -/
def lacksRole (roleId : ℕ) : Buyer → Billing Bool
  | .known user => do
      let has ← issue (.hasRole user.id roleId)
      pure !has
  | .created _ => pure true

/-- Step 13: the joined plan, or the one looked up. -/
def planOf (order : SubscriptionOrder) : Option SubscriptionPlan → Billing SubscriptionPlan
  | some plan => pure plan
  | none => do
      let found ← issue (.findPlan order.subscriptionPlanId)
      .orThrow (.notFound "Subscription plan not found") found

/-- The end of the current subscription, or now. -/
def afterCurrent : Option Subscription → Billing ℤ
  | some current => pure current.expireAt
  | none => dateNow

/-- Step 14: the new subscription follows the current one.  A new account has none. -/
def startDate : Buyer → Billing ℤ
  | .known user => do
      let now ← dateNow
      let current ← issue (.findCurrent user.id now)
      afterCurrent current
  | .created _ => dateNow

/-- `AccountProvisioningResult`. -/
structure AccountProvisioningResult where
  userId : ℕ
  username : String
  accountType : AccountType
  providerUserId : String
  newUser : Bool
  subscriptionId : ℕ
  expireAt : ℤ
  deriving DecidableEq, Repr

/-- `savedUser.username`. -/
def Buyer.username : Buyer → String
  | .known user => user.username
  | .created username => username

/-- `newUser`. -/
def Buyer.isNew : Buyer → Bool
  | .known _ => false
  | .created _ => true

/-- Steps 15 to 18: everything is written, and the transaction commits. -/
def saveApproval (zone : Zone) (adminUserId : ℕ) (order : SubscriptionOrder)
    (receipt : PaymentReceipt) (role : Role) (buyer : Buyer) (plan : SubscriptionPlan)
    (addRole : Bool) (startAt : ℤ) : Billing AccountProvisioningResult := do
  let now ← dateNow
  let seen ← issue (.reloadReceipt receipt.id)
  let expireAt := calculateExpireDate zone startAt plan.durationDays
  let saved ← issue (.commitApproval
    { order := SubscriptionOrder.approvedBy adminUserId now order
      receipt := PaymentReceipt.approvedBy adminUserId now receipt
      seen := seen
      buyer := buyer
      roleId := role.id
      addRole := addRole
      planId := plan.id
      startAt := startAt
      expireAt := expireAt })
  let ids ← .orThrow .queryFailed saved
  pure
    { userId := ids.1
      username := Buyer.username buyer
      accountType := order.accountType
      providerUserId := order.providerUserId
      newUser := Buyer.isNew buyer
      subscriptionId := ids.2
      expireAt := expireAt }

/-- `approveOrder`. -/
def approveOrder (zone : Zone) (orderId receiptId adminUserId : ℕ) :
    Billing AccountProvisioningResult :=
  transaction orderId do
    let locked ← lockForApproval orderId
    let receipt ← ownReceipt locked.1 receiptId
    refuseDecided receipt
    refuseTwin receipt
    let resolved ← resolveBuyer locked.1
    let addRole ← lacksRole resolved.1.id resolved.2
    let plan ← planOf locked.1 locked.2
    let startAt ← startDate resolved.2
    saveApproval zone adminUserId locked.1 receipt resolved.1 resolved.2 plan addRole startAt

/-- `rejectReceipt`: the order must not be approved; the receipt's own status is not looked at. -/
def rejectReceipt (orderId receiptId adminUserId : ℕ) (reason : String) : Billing Unit :=
  transaction orderId do
    let found ← issue (.lockOrder orderId)
    let locked ← .orThrow (.notFound "Subscription order not found") found
    .refuseIf (locked.1.status = .approved)
      (.badRequest "Approved subscription order cannot be rejected")
    let receipt ← ownReceipt locked.1 receiptId
    let now ← dateNow
    let seen ← issue (.reloadReceipt receipt.id)
    issue (.commitRejection
      { order := SubscriptionOrder.rejectedFor reason now locked.1
        receipt := PaymentReceipt.rejectedBy adminUserId reason now receipt
        seen := seen })

/-! ### Submitting and analyzing -/

/-- `CreateSubscriptionOrderParams`. -/
structure CreateSubscriptionOrderParams where
  provider : CommunicationProvider
  providerUserId : String
  phoneNumber : String
  accountType : AccountType
  subscriptionPlanId : ℕ

/-- `buildOrder`: checked and prepared, not saved. -/
def buildOrder (params : CreateSubscriptionOrderParams) : Billing SubscriptionOrder := do
  .refuseIf (trim params.providerUserId = "") (.badRequest "Provider user id is required")
  .refuseIf (isValidIranMobile (normalizeOrderPhone params.phoneNumber) = false)
    (.badRequest "Invalid phone number")
  let found ← issue (.findPlan params.subscriptionPlanId)
  let plan ← .orThrow (.notFound "Subscription plan not found") found
  .refuseIf (plan.accountType ≠ params.accountType)
    (.badRequest "Subscription plan does not belong to selected account type")
  pure
    { id := 0
      provider := params.provider
      providerUserId := trim params.providerUserId
      phoneNumber := normalizeOrderPhone params.phoneNumber
      accountType := params.accountType
      subscriptionPlanId := plan.id
      amount := plan.price
      currency := plan.currency
      status := .waitingForReceipt
      createdUserId := none
      approvedAt := none
      approvedByUserId := none
      rejectedAt := none
      rejectionReason := none }

/-- `SubmitPaymentReceiptParams`. -/
structure SubmitPaymentReceiptParams where
  orderId : Option ℕ
  newOrder : Option CreateSubscriptionOrderParams
  imageUrl : String
  providerFileId : Option String

/-- The order a receipt is submitted for. -/
def orderToPay (params : SubmitPaymentReceiptParams) : Billing (Entity SubscriptionOrder) :=
  match params.newOrder, params.orderId with
  | some newOrder, _ => do
      let order ← buildOrder newOrder
      pure (.created order)
  | none, some orderId => do
      let found ← issue (.findOrderById orderId)
      let order ← .orThrow (.notFound "Subscription order not found") found
      pure (.loaded order)
  | none, none => .throw (.notFound "Subscription order not found")

/-- The entity with another status. -/
def withStatus (status : SubscriptionOrderStatus) : Entity SubscriptionOrder → Entity SubscriptionOrder
  | .created o => .created { o with status := status }
  | .loaded o => .loaded { o with status := status }

/-- `submitReceipt`: the id of the saved receipt. -/
def submitReceipt (params : SubmitPaymentReceiptParams) : Billing ℕ := do
  .refuseIf (params.orderId.isSome = params.newOrder.isSome)
    (.badRequest "Exactly one of order id or new order is required")
  .refuseIf (trim params.imageUrl = "") (.badRequest "Receipt image is required")
  let order ← orderToPay params
  .refuseIf (order.value.status ∈ [.approved, .rejected, .cancelled])
    (.badRequest "Receipt cannot be submitted for this order")
  issue (.saveWithOrder (.created (PaymentReceipt.submitted params.imageUrl params.providerFileId))
    (withStatus .receiptSubmitted order))

/-- `duplicateTrackingCode`. -/
def isDuplicate (receiptId : ℕ) : Option TrackingCode → Billing Bool
  | some code => issue (.existsTrackingCode code receiptId)
  | none => pure false

/-- The part of `analyzeReceipt` after its claim was found to stand: the model reads the image, and
receipt and order are saved as they were loaded before. -/
def analyzeClaimed (receipt : PaymentReceipt) : Billing Unit := do
  let found ← issue (.findOrderById receipt.orderId)
  let order ← .orThrow (.notFound "Subscription order not found") found
  let answer ← issue (.analyze receipt.imageUrl)
  let result ← .orThrow .analysisFailed answer
  let duplicate ← isDuplicate receipt.id result.trackingCode
  let now ← dateNow
  let _ ← issue (.saveWithOrder
    (.loaded (PaymentReceipt.analyzedAs order result duplicate now receipt))
    (.loaded { order with status := .underReview }))
  pure ()

/-- `analyzeReceipt`: another worker may have taken over after the claim went stale. -/
def analyzeReceipt (receiptId : ℕ) : Billing Unit := do
  let found ← issue (.findReceiptById receiptId)
  let receipt ← .orThrow (.notFound "Payment receipt not found") found
  if receipt.status = .analyzing then analyzeClaimed receipt else pure ()

/-- What the configuration says: attempts before a person looks, and when a claim is stale. -/
structure AnalysisConfig where
  maxAnalysisAttempts : ℕ
  staleMs : ℤ

/-- The claim won: failures go back to the queue. -/
def analyzeOrRelease (cfg : AnalysisConfig) (receiptId : ℕ) : Billing Unit := do
  match ← (analyzeReceipt receiptId).attempt with
  | .ok _ => pure ()
  | .error _ => issue (.releaseFailedAnalysis receiptId cfg.maxAnalysisAttempts)

/-- `processReceipt`. -/
def processReceipt (cfg : AnalysisConfig) (receiptId : ℕ) : Billing Unit := do
  let claimed ← issue (.claimForAnalysis receiptId)
  if claimed then analyzeOrRelease cfg receiptId else pure ()

/-- `ReceiptAnalysisWorker.tick`: stale claims are released, then the oldest receipts analyzed. -/
def tick (cfg : AnalysisConfig) : Billing Unit := do
  let now ← dateNow
  issue (.releaseStaleAnalyses (now - cfg.staleMs) cfg.maxAnalysisAttempts)
  let ids ← issue (.findPendingAnalysisIds (now - 60000) 10)
  .forEach (processReceipt cfg) ids

/-! ### Rewards -/

/-- `GrantedBonus`. -/
structure GrantedBonus where
  minTomans : ℕ
  days : ℕ
  startAt : ℤ
  expireAt : ℤ
  deriving DecidableEq, Repr

/-- `paidTomans`: the database's sum, as a JavaScript number. -/
def paidTomans (userId : ℕ) : Billing ℚ := do
  let tomans ← issue (.sumTomans userId)
  pure (binary64 tomans)

/-- The bonus a tier gives from `startAt` on. -/
def tierBonus (userId : ℕ) (tier : DriverReward) (startAt : ℤ) : SubscriptionBonus where
  userId := userId
  reason := .paid tier.minTomans
  days := tier.freeDays
  startAt := startAt
  expireAt := startAt + tier.freeDays * dayMs

/-- The rest of a tier's transaction, when the user has not had the tier. -/
def insertTier (userId : ℕ) (now : ℤ) (tier : DriverReward) : Billing (Option GrantedBonus) := do
  let startAt ← issue (.freeFrom userId now)
  let saved ← issue (.commitBonus (tierBonus userId tier startAt))
  if saved then
    pure (some ⟨tier.minTomans, tier.freeDays, startAt, startAt + tier.freeDays * dayMs⟩)
  else do
    issue (.unlockBonuses userId)
    .throw .queryFailed

/-- The transaction of one tier. -/
def grantTier (userId : ℕ) (now : ℤ) (tier : DriverReward) : Billing (Option GrantedBonus) := do
  issue (.lockBonuses userId)
  let had ← issue (.findBonus userId (.paid tier.minTomans))
  if had.isSome then do
    issue (.unlockBonuses userId)
    pure none
  else insertTier userId now tier

/-- The loop over the tiers; returns what was given. -/
def grantTiers (userId : ℕ) (now : ℤ) : List DriverReward → Billing (List GrantedBonus)
  | [] => pure []
  | tier :: tiers => do
      let bonus ← grantTier userId now tier
      let granted ← grantTiers userId now tiers
      pure (bonus.toList ++ granted)

/-- The tiers a driver has reached. -/
def grantReached (userId : ℕ) (now : ℤ) (tiers : List DriverReward) : Billing (List GrantedBonus) := do
  let paid ← paidTomans userId
  grantTiers userId now (tiers.filter fun tier => (tier.minTomans : ℚ) ≤ paid)

/-- `grantEarned`. -/
def grantEarned (userId : ℕ) (now : ℤ) : Billing (List GrantedBonus) := do
  let tiers ← issue .getDriverRewards
  if tiers.isEmpty then pure []
  else do
    let driver ← issue (.isDriver userId)
    if driver then grantReached userId now tiers else pure []

end TransportBackend.SubscriptionService
