import TransportBackend.AtomicProgram
import TransportBackend.Binary64
import TransportBackend.KeyedTable

/-!
# Orders, receipts and periods: the tables and the statements on them

The rows `SubscriptionOrder`, `PaymentReceipt`, `Subscription` and `SubscriptionBonus` with the rows
an approval reads beside them (plans, users, roles, bot links), and every statement the subscription
services issue, each one atomic command (`SubscriptionCmd`) with its effect (`exec`).

A transaction is modelled under `READ COMMITTED`: its reads are commands of their own, what it writes
becomes visible at once in its last command (`commitApproval`, `commitRejection`, `commitBonus`), and
the locks it takes — the order's row, the user's advisory lock — are held until then.  `blocked` says
which commands wait.

TypeORM's `save(entity)` reads the row again and updates the columns that differ from what it read.
In a transaction of its own (`saveWithOrder`) the row ends equal to the entity; in an approval the
two statements are apart, so `commitApproval` carries the row `save` had read (`PaymentReceipt.merge`).
-/

namespace TransportBackend.SubscriptionStore

open TransportBackend.AtomicProgram
open TransportBackend.Binary64
open TransportBackend.KeyedTable

/-! ### Rows -/

/-- `AccountType`. -/
inductive AccountType where
  | driver
  | company
  | broker
  | factory
  deriving DecidableEq, Repr

/-- `CommunicationProvider`. -/
inductive CommunicationProvider where
  | telegram | whatsapp | web | bale | rubika | eitaa
  deriving DecidableEq, Repr

/-- `SubscriptionStatus`. -/
inductive SubscriptionStatus where
  | active
  | expired
  | cancelled
  deriving DecidableEq, Repr

/-- `SubscriptionOrderStatus`. -/
inductive SubscriptionOrderStatus where
  | waitingForReceipt
  | receiptSubmitted
  | underReview
  | approved
  | rejected
  | cancelled
  deriving DecidableEq, Repr

/-- `PaymentReceiptStatus`. -/
inductive PaymentReceiptStatus where
  | pendingAnalysis
  | analyzing
  | analyzed
  | needsReview
  | approved
  | rejected
  deriving DecidableEq, Repr

/-- A tracking code as the analyzer reads it: an empty one is null. -/
structure TrackingCode where
  text : String
  nonempty : text ≠ ""
  deriving DecidableEq, Repr

/-- A row of `SubscriptionOrder`; times are milliseconds. -/
structure SubscriptionOrder where
  id : ℕ
  provider : CommunicationProvider
  providerUserId : String
  phoneNumber : String
  accountType : AccountType
  subscriptionPlanId : ℕ
  amount : ℕ
  currency : String
  status : SubscriptionOrderStatus
  createdUserId : Option ℕ
  approvedAt : Option ℤ
  approvedByUserId : Option ℕ
  rejectedAt : Option ℤ
  rejectionReason : Option String
  deriving DecidableEq, Repr

/-- A row of `PaymentReceipt`.  Its cards, names, dates and the model's raw answer are left out:
nothing here reads them. -/
structure PaymentReceipt where
  id : ℕ
  orderId : ℕ
  providerFileId : Option String
  imageUrl : String
  status : PaymentReceiptStatus
  analysisAttempts : ℕ
  analysisStartedAt : Option ℤ
  extractedAmount : Option ℕ
  trackingCode : Option TrackingCode
  amountMatched : Option Bool
  duplicateTrackingCode : Option Bool
  analyzedAt : Option ℤ
  reviewedByUserId : Option ℕ
  reviewedAt : Option ℤ
  reviewNote : Option String
  createdAt : ℤ
  deriving DecidableEq, Repr

/-- A row of `Subscription`. -/
structure Subscription where
  id : ℕ
  userId : ℕ
  subscriptionPlanId : ℕ
  orderId : ℕ
  startAt : ℤ
  expireAt : ℤ
  status : SubscriptionStatus
  deriving DecidableEq, Repr

/-- `reason` of a bonus: `paid:<minTomans>`. -/
inductive BonusReason where
  | paid (minTomans : ℕ)
  deriving DecidableEq, Repr

/-- A row of `SubscriptionBonus`. -/
structure SubscriptionBonus where
  userId : ℕ
  reason : BonusReason
  days : ℕ
  startAt : ℤ
  expireAt : ℤ
  deriving DecidableEq, Repr

/-- The unique index `UQ_SubscriptionBonus_user_reason`. -/
def SubscriptionBonus.key (b : SubscriptionBonus) : ℕ × BonusReason := (b.userId, b.reason)

/-- A row of `SubscriptionPlan`. -/
structure SubscriptionPlan where
  id : ℕ
  accountType : AccountType
  durationDays : ℤ
  price : ℕ
  currency : String
  deriving DecidableEq, Repr

/-- A row of `User`. -/
structure User where
  id : ℕ
  username : String
  mobile : Option String
  active : Bool
  deriving DecidableEq, Repr

/-- A row of `Role`. -/
structure Role where
  id : ℕ
  name : String
  active : Bool
  deriving DecidableEq, Repr

/-- A row of `BotLink`. -/
structure BotLink where
  externalUserId : String
  userId : ℕ
  deriving DecidableEq, Repr

/-! ### Columns -/

/-- The column after a save that read `seen`: written only when the entity differs from it. -/
def column {α : Type} [DecidableEq α] (entity seen current : α) : α :=
  if entity = seen then current else entity

@[simp] theorem column_seen {α : Type} [DecidableEq α] (entity current : α) :
    column entity current current = entity := by
  unfold column
  split
  · rename_i h
    exact h.symm
  · rfl

namespace PaymentReceipt

/-- The row after a save of `entity` that had read `seen`. -/
def merge (entity seen current : PaymentReceipt) : PaymentReceipt where
  id := current.id
  orderId := column entity.orderId seen.orderId current.orderId
  providerFileId := column entity.providerFileId seen.providerFileId current.providerFileId
  imageUrl := column entity.imageUrl seen.imageUrl current.imageUrl
  status := column entity.status seen.status current.status
  analysisAttempts := column entity.analysisAttempts seen.analysisAttempts current.analysisAttempts
  analysisStartedAt :=
    column entity.analysisStartedAt seen.analysisStartedAt current.analysisStartedAt
  extractedAmount := column entity.extractedAmount seen.extractedAmount current.extractedAmount
  trackingCode := column entity.trackingCode seen.trackingCode current.trackingCode
  amountMatched := column entity.amountMatched seen.amountMatched current.amountMatched
  duplicateTrackingCode :=
    column entity.duplicateTrackingCode seen.duplicateTrackingCode current.duplicateTrackingCode
  analyzedAt := column entity.analyzedAt seen.analyzedAt current.analyzedAt
  reviewedByUserId := column entity.reviewedByUserId seen.reviewedByUserId current.reviewedByUserId
  reviewedAt := column entity.reviewedAt seen.reviewedAt current.reviewedAt
  reviewNote := column entity.reviewNote seen.reviewNote current.reviewNote
  createdAt := column entity.createdAt seen.createdAt current.createdAt

/-- When nothing happened since the save read the row, the row ends equal to the entity. -/
theorem merge_seen {entity current : PaymentReceipt} (hid : entity.id = current.id) :
    merge entity current current = entity := by
  obtain ⟨id, orderId, file, url, status, attempts, started, amount, code, matched, duplicate,
    analyzed, reviewer, reviewed, note, created⟩ := entity
  obtain rfl : id = current.id := hid
  simp only [merge, column_seen]

/-- The columns `analyzeReceipt` may leave `undefined` keep what is stored. -/
def keepingUndefined (stored : Option PaymentReceipt) (entity : PaymentReceipt) : PaymentReceipt :=
  { entity with
    extractedAmount := entity.extractedAmount.or (stored.bind extractedAmount)
    trackingCode := entity.trackingCode.or (stored.bind trackingCode) }

/-- The row a failed or stale analysis goes back to. -/
def released (maxAttempts : ℕ) (r : PaymentReceipt) : PaymentReceipt :=
  { r with status := if maxAttempts ≤ r.analysisAttempts then .needsReview else .pendingAnalysis }

/-- The row a worker has claimed. -/
def claimed (now : ℤ) (r : PaymentReceipt) : PaymentReceipt :=
  { r with
    status := .analyzing
    analysisStartedAt := some now
    analysisAttempts := r.analysisAttempts + 1 }

/-- Claimed before this time and still being analyzed. -/
def stale (startedBefore : ℤ) (r : PaymentReceipt) : Bool :=
  r.status = .analyzing && r.analysisStartedAt.any (· < startedBefore)

end PaymentReceipt

/-- An entity handed to `save`: just created, or loaded before. -/
inductive Entity (α : Type) where
  | created (value : α)
  | loaded (value : α)

def Entity.value {α : Type} : Entity α → α
  | .created a => a
  | .loaded a => a

/-! ### The store -/

/-- The tables, the locks held and the clock. -/
structure Store where
  orders : Table SubscriptionOrder.id
  receipts : Table PaymentReceipt.id
  subscriptions : Table Subscription.id
  bonuses : Table SubscriptionBonus.key
  plans : Table SubscriptionPlan.id
  users : Table User.id
  roles : Table Role.id
  userRoles : List (ℕ × ℕ)
  botLinks : Table BotLink.externalUserId
  orderLocks : List ℕ
  bonusLocks : List ℕ
  clock : ℤ

/-- No rows at all, at time `t`. -/
def Store.empty (t : ℤ) : Store :=
  ⟨.empty, .empty, .empty, .empty, .empty, .empty, .empty, [], .empty, [], [], t⟩

/-- The account an approval gives the subscription to. -/
inductive Buyer where
  | known (user : User)
  | created (username : String)
  deriving DecidableEq, Repr

/-- What an approval writes. -/
structure Approval where
  order : SubscriptionOrder
  receipt : PaymentReceipt
  seen : Option PaymentReceipt
  buyer : Buyer
  roleId : ℕ
  addRole : Bool
  planId : ℕ
  startAt : ℤ
  expireAt : ℤ
  deriving DecidableEq, Repr

/-- The order's row once its buyer is known. -/
def Approval.orderFor (a : Approval) (userId : ℕ) : SubscriptionOrder :=
  { a.order with createdUserId := some userId }

/-- What a rejection writes. -/
structure Rejection where
  order : SubscriptionOrder
  receipt : PaymentReceipt
  seen : Option PaymentReceipt
  deriving DecidableEq, Repr

/-- What the analyzer read off the image. -/
structure ReceiptAnalysisResult where
  amount : Option ℕ
  trackingCode : Option TrackingCode
  deriving DecidableEq, Repr

/-- `DriverReward`: a tier of the policy. -/
structure DriverReward where
  minTomans : ℕ
  freeDays : ℕ
  deriving DecidableEq, Repr

/-- The statements, and the calls to the analyzer and the policy. -/
inductive SubscriptionCmd where
  | now
  | lockOrder (id : ℕ)
  | findOneReceipt (id : ℕ)
  | findApprovedTwin (trackingCode : TrackingCode) (exceptId : ℕ)
  | findActiveRole (name : String)
  | findBotLink (externalUserId : String)
  | findUser (id : ℕ)
  | findUserByPhone (phone : String)
  | hasRole (userId roleId : ℕ)
  | findPlan (id : ℕ)
  | findCurrent (userId : ℕ) (now : ℤ)
  | reloadReceipt (id : ℕ)
  | commitApproval (approval : Approval)
  | commitRejection (rejection : Rejection)
  | rollback (orderId : ℕ)
  | findOrderById (id : ℕ)
  | findReceiptById (id : ℕ)
  | saveWithOrder (receipt : Entity PaymentReceipt) (order : Entity SubscriptionOrder)
  | existsTrackingCode (trackingCode : TrackingCode) (exceptId : ℕ)
  | claimForAnalysis (receiptId : ℕ)
  | analyze (imageUrl : String)
  | releaseFailedAnalysis (receiptId maxAttempts : ℕ)
  | releaseStaleAnalyses (startedBefore : ℤ) (maxAttempts : ℕ)
  | findPendingAnalysisIds (createdBefore : ℤ) (limit : ℕ)
  | getDriverRewards
  | isDriver (userId : ℕ)
  | sumTomans (userId : ℕ)
  | lockBonuses (userId : ℕ)
  | findBonus (userId : ℕ) (reason : BonusReason)
  | freeFrom (userId : ℕ) (now : ℤ)
  | commitBonus (bonus : SubscriptionBonus)
  | unlockBonuses (userId : ℕ)

/-- What each command answers. -/
@[reducible] def Resp : SubscriptionCmd → Type
  | .now => ℤ
  | .lockOrder _ => Option (SubscriptionOrder × Option SubscriptionPlan)
  | .findOneReceipt _ => Option PaymentReceipt
  | .findApprovedTwin _ _ => Option PaymentReceipt
  | .findActiveRole _ => Option Role
  | .findBotLink _ => Option BotLink
  | .findUser _ => Option User
  | .findUserByPhone _ => Option User
  | .hasRole _ _ => Bool
  | .findPlan _ => Option SubscriptionPlan
  | .findCurrent _ _ => Option Subscription
  | .reloadReceipt _ => Option PaymentReceipt
  | .commitApproval _ => Option (ℕ × ℕ)
  | .commitRejection _ => Unit
  | .rollback _ => Unit
  | .findOrderById _ => Option SubscriptionOrder
  | .findReceiptById _ => Option PaymentReceipt
  | .saveWithOrder _ _ => ℕ
  | .existsTrackingCode _ _ => Bool
  | .claimForAnalysis _ => Bool
  | .analyze _ => Option ReceiptAnalysisResult
  | .releaseFailedAnalysis _ _ => Unit
  | .releaseStaleAnalyses _ _ => Unit
  | .findPendingAnalysisIds _ _ => List ℕ
  | .getDriverRewards => List DriverReward
  | .isDriver _ => Bool
  | .sumTomans _ => ℚ
  | .lockBonuses _ => Unit
  | .findBonus _ _ => Option SubscriptionBonus
  | .freeFrom _ _ => ℤ
  | .commitBonus _ => Bool
  | .unlockBonuses _ => Unit

/-! ### What the store does not decide -/

/-- A tier as the policy's JSON holds it: `Number(…)` of its two fields, `none` for `NaN`. -/
structure RawReward where
  minTomans : Option ℚ
  freeDays : Option ℚ

/-- What the analyzer answers (`none`: it throws) and which tiers the policy holds. -/
structure World where
  analysis : Option ReceiptAnalysisResult
  rewards : List RawReward

/-- A whole, positive, safe number. -/
def positiveInteger (value : Option ℚ) : Option ℕ :=
  value.bind fun q => if isSafeInteger q ∧ 0 < q then some q.num.toNat else none

/-- The tier of a raw one, when both its numbers are whole and positive. -/
def RawReward.tier (raw : RawReward) : Option DriverReward :=
  (positiveInteger raw.minTomans).bind fun minTomans =>
    (positiveInteger raw.freeDays).map fun freeDays => ⟨minTomans, freeDays⟩

/-- `normalizeRewards`: one tier an amount, the last of them, smallest first. -/
def normalizeRewards (value : List RawReward) : List DriverReward :=
  let tiers : Table DriverReward.minTomans := (value.filterMap RawReward.tier).foldl Table.put .empty
  tiers.rows.mergeSort fun a b => a.minTomans ≤ b.minTomans

/-! ### Queries -/

/-- What an order counts towards a tier, in tomans. -/
def SubscriptionOrder.tomans (o : SubscriptionOrder) : ℚ :=
  if o.currency = "IRT" then o.amount else if o.currency = "IRR" then o.amount / 10 else 0

/-- `ORDER BY "expireAt" DESC LIMIT 1`. -/
def latest : List Subscription → Option Subscription
  | [] => none
  | b :: bs =>
      match latest bs with
      | some c => some (if b.expireAt < c.expireAt then c else b)
      | none => some b

namespace Store

/-- The approved receipt with this tracking code, other than the given one. -/
def approvedTwin (s : Store) (code : TrackingCode) (exceptId : ℕ) : Option PaymentReceipt :=
  s.receipts.rows.find? fun r => r.trackingCode = some code && r.id ≠ exceptId && r.status = .approved

def activeRole (s : Store) (name : String) : Option Role :=
  s.roles.rows.find? fun r => r.name = name && r.active

def userByPhone (s : Store) (phone : String) : Option User :=
  s.users.rows.find? fun u => u.mobile = some phone || u.username = phone

/-- The `ACTIVE` subscriptions of a user. -/
def activeOf (s : Store) (userId : ℕ) : List Subscription :=
  s.subscriptions.rows.filter fun b => b.userId = userId && b.status = .active

def bonusesOf (s : Store) (userId : ℕ) : List SubscriptionBonus :=
  s.bonuses.rows.filter fun b => b.userId = userId

/-- The `ACTIVE` subscription of a user that ends last, when it has not ended yet. -/
def current (s : Store) (userId : ℕ) (now : ℤ) : Option Subscription :=
  latest ((s.activeOf userId).filter fun b => now < b.expireAt)

/-- `freeFrom`: the later of now, the end of the last active subscription and of the last bonus. -/
def freeFrom (s : Store) (userId : ℕ) (now : ℤ) : ℤ :=
  ((s.activeOf userId).map Subscription.expireAt ++
    (s.bonusesOf userId).map SubscriptionBonus.expireAt).foldr max now

/-- What an order counts while it is `APPROVED`. -/
def tomansOf (s : Store) (orderId : ℕ) : ℚ :=
  match s.orders.get orderId with
  | some o => if o.status = .approved then o.tomans else 0
  | none => 0

/-- The sum over the user's subscriptions, each joined with its order. -/
def sumTomans (s : Store) (userId : ℕ) : ℚ :=
  ((s.subscriptions.rows.filter fun b => b.userId = userId).map fun b => s.tomansOf b.orderId).sum

def isDriver (s : Store) (userId : ℕ) : Bool :=
  s.userRoles.any fun ur =>
    ur.1 = userId && s.roles.rows.any fun r => r.id = ur.2 && r.name = "DRIVER"

def pendingAnalysisIds (s : Store) (createdBefore : ℤ) (limit : ℕ) : List ℕ :=
  let pending := s.receipts.rows.filter fun r =>
    r.status = .pendingAnalysis && r.createdAt < createdBefore
  ((pending.mergeSort fun a b => a.createdAt ≤ b.createdAt).take limit).map PaymentReceipt.id

/-! ### Writes -/

/-- The receipt's row after `save(entity)` that had read `seen`. -/
def savedReceipt (s : Store) (entity : PaymentReceipt) (seen : Option PaymentReceipt) :
    PaymentReceipt :=
  match seen, s.receipts.get entity.id with
  | some seen, some current => entity.merge seen current
  | _, _ => entity

/-- A user id (a uuid) that no row names. -/
def freshUser (s : Store) : ℕ :=
  (s.users.rows.map User.id ++ s.subscriptions.rows.map Subscription.userId ++
    s.bonuses.rows.map SubscriptionBonus.userId).foldr max 0 + 1

/-- The user id of the buyer; `none` when the new name or phone is taken. -/
def buyerId (s : Store) : Buyer → Option ℕ
  | .known user => some user.id
  | .created username => if (s.userByPhone username).isSome then none else some s.freshUser

/-- The users after the buyer's account was made. -/
def withBuyer (s : Store) : Buyer → Table User.id
  | .known _ => s.users
  | .created username => s.users.put ⟨s.freshUser, username, some username, true⟩

/-- The subscription an approval inserts. -/
def newSubscription (s : Store) (a : Approval) (userId : ℕ) : Subscription where
  id := s.subscriptions.fresh
  userId := userId
  subscriptionPlanId := a.planId
  orderId := a.order.id
  startAt := a.startAt
  expireAt := a.expireAt
  status := .active

/-- Everything an approval of this buyer writes. -/
def approved (s : Store) (a : Approval) (userId : ℕ) : Store :=
  { s with
    users := s.withBuyer a.buyer
    userRoles := if a.addRole then (userId, a.roleId) :: s.userRoles else s.userRoles
    subscriptions := s.subscriptions.put (s.newSubscription a userId)
    receipts := s.receipts.put (s.savedReceipt a.receipt a.seen)
    orders := s.orders.put (a.orderFor userId)
    orderLocks := s.orderLocks.erase a.order.id }

def commitApproval (s : Store) (a : Approval) : Option (ℕ × ℕ) × Store :=
  match s.buyerId a.buyer with
  | some userId => (some (userId, s.subscriptions.fresh), s.approved a userId)
  | none => (none, s)

def commitRejection (s : Store) (r : Rejection) : Store :=
  { s with
    receipts := s.receipts.put (s.savedReceipt r.receipt r.seen)
    orders := s.orders.put r.order
    orderLocks := s.orderLocks.erase r.order.id }

/-- The id an entity has once it is saved. -/
def savedOrderId (s : Store) : Entity SubscriptionOrder → ℕ
  | .created _ => s.orders.fresh
  | .loaded o => o.id

/-- The receipt as `saveWithOrder` stores it. -/
def storedReceipt (s : Store) (orderId : ℕ) : Entity PaymentReceipt → PaymentReceipt
  | .created r => { r with id := s.receipts.fresh, orderId := orderId, createdAt := s.clock }
  | .loaded r => { r.keepingUndefined (s.receipts.get r.id) with orderId := orderId }

def saveWithOrder (s : Store) (receipt : Entity PaymentReceipt) (order : Entity SubscriptionOrder) :
    ℕ × Store :=
  let orderId := s.savedOrderId order
  let row := s.storedReceipt orderId receipt
  (row.id,
    { s with
      orders := s.orders.put { order.value with id := orderId }
      receipts := s.receipts.put row })

def claimForAnalysis (s : Store) (receiptId : ℕ) : Bool × Store :=
  match s.receipts.get receiptId with
  | some r =>
      if r.status = .pendingAnalysis then
        (true, { s with receipts := s.receipts.put (r.claimed s.clock) })
      else (false, s)
  | none => (false, s)

def releaseFailedAnalysis (s : Store) (receiptId maxAttempts : ℕ) : Store :=
  match s.receipts.get receiptId with
  | some r =>
      if r.status = .analyzing then
        { s with receipts := s.receipts.put (r.released maxAttempts) }
      else s
  | none => s

def releaseStaleAnalyses (s : Store) (startedBefore : ℤ) (maxAttempts : ℕ) : Store :=
  { s with
    receipts := s.receipts.map
      (fun r => if r.stale startedBefore then r.released maxAttempts else r)
      (fun r => by split <;> rfl) }

/-- The insert of a bonus, refused by `UQ_SubscriptionBonus_user_reason`. -/
def commitBonus (s : Store) (b : SubscriptionBonus) : Bool × Store :=
  if (s.bonuses.get b.key).isSome then (false, s)
  else
    (true, { s with bonuses := s.bonuses.put b, bonusLocks := s.bonusLocks.erase b.userId })

end Store

/-! ### Commands -/

/-- What a command answers and what it writes. -/
def exec (w : World) : (c : SubscriptionCmd) → Store → Resp c × Store
  | .now, s => (s.clock, s)
  | .lockOrder id, s =>
      ((s.orders.get id).map fun o => (o, s.plans.get o.subscriptionPlanId),
        { s with orderLocks := id :: s.orderLocks })
  | .findOneReceipt id, s => (s.receipts.get id, s)
  | .findApprovedTwin code exceptId, s => (s.approvedTwin code exceptId, s)
  | .findActiveRole name, s => (s.activeRole name, s)
  | .findBotLink externalUserId, s => (s.botLinks.get externalUserId, s)
  | .findUser id, s => (s.users.get id, s)
  | .findUserByPhone phone, s => (s.userByPhone phone, s)
  | .hasRole userId roleId, s => (decide ((userId, roleId) ∈ s.userRoles), s)
  | .findPlan id, s => (s.plans.get id, s)
  | .findCurrent userId now, s => (s.current userId now, s)
  | .reloadReceipt id, s => (s.receipts.get id, s)
  | .commitApproval a, s => s.commitApproval a
  | .commitRejection r, s => ((), s.commitRejection r)
  | .rollback orderId, s => ((), { s with orderLocks := s.orderLocks.erase orderId })
  | .findOrderById id, s => (s.orders.get id, s)
  | .findReceiptById id, s => (s.receipts.get id, s)
  | .saveWithOrder receipt order, s => s.saveWithOrder receipt order
  | .existsTrackingCode code exceptId, s =>
      (s.receipts.rows.any fun r => r.trackingCode = some code && r.id ≠ exceptId, s)
  | .claimForAnalysis id, s => s.claimForAnalysis id
  | .analyze _, s => (w.analysis, s)
  | .releaseFailedAnalysis id maxAttempts, s => ((), s.releaseFailedAnalysis id maxAttempts)
  | .releaseStaleAnalyses before maxAttempts, s => ((), s.releaseStaleAnalyses before maxAttempts)
  | .findPendingAnalysisIds before limit, s => (s.pendingAnalysisIds before limit, s)
  | .getDriverRewards, s => (normalizeRewards w.rewards, s)
  | .isDriver userId, s => (s.isDriver userId, s)
  | .sumTomans userId, s => (s.sumTomans userId, s)
  | .lockBonuses userId, s => ((), { s with bonusLocks := userId :: s.bonusLocks })
  | .findBonus userId reason, s => (s.bonuses.get (userId, reason), s)
  | .freeFrom userId now, s => (s.freeFrom userId now, s)
  | .commitBonus b, s => s.commitBonus b
  | .unlockBonuses userId, s => ((), { s with bonusLocks := s.bonusLocks.erase userId })

/-- The commands that wait for a lock another transaction holds: `FOR UPDATE` and the advisory lock,
and an update of a locked order. -/
def blocked : SubscriptionCmd → Store → Bool
  | .lockOrder id, s => id ∈ s.orderLocks
  | .lockBonuses userId, s => userId ∈ s.bonusLocks
  | .saveWithOrder _ (.loaded o), s => o.id ∈ s.orderLocks && s.orders.get o.id ≠ some o
  | _, _ => false

/-! ### Programs -/

/-- What a method throws. -/
inductive SubscriptionError where
  | notFound (message : String)
  | conflict (message : String)
  | badRequest (message : String)
  | analysisFailed
  | queryFailed
  deriving DecidableEq, Repr

/-- A method of the subscription services. -/
abbrev Billing (α : Type) : Type := Prog Resp SubscriptionError α

/-- One statement, awaited. -/
def issue (c : SubscriptionCmd) : Billing (Resp c) := Prog.perform c

/-- `new Date()`. -/
def dateNow : Billing ℤ := Prog.perform SubscriptionCmd.now

end TransportBackend.SubscriptionStore
