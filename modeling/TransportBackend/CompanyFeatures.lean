import TransportBackend.PlanExpiry
import TransportBackend.InterleavedRun

/-!
# The menus a company buys: the tables and the service

`CompanyFeatureService`: what a company has open, and how an order or an admin opens a menu for some days.

* `standing`, `paidFeatures`, `openGrants` — the three readings every answer about a menu is made of;
* `lockedFeatures`, `hasFeature` — the menus a company does not have now;
* `status` — every menu for the purchase page, worked out on its own;
* `addGrant`, `approveOrder`, `grant` — a new period behind the one that runs;
* `submitOrder`, `submitTierOrder`, `rejectOrder`, `createPlan`, `deactivatePlan`, `updateTier` — the rest of the
  service, statement by statement;
* `machine` — any number of calls, interleaved.

An approval is a transaction: the rows it inserts are carried by it until it commits, and only its order's row is
locked.  Amounts are whole numbers; what is published and the views of tiers and orders are left out.
-/

namespace TransportBackend.CompanyFeatures

open TransportBackend.AtomicProgram
open TransportBackend.InterleavedRun
open TransportBackend.KeyedTable
open TransportBackend.PlanExpiry
  (CompanyFeature CompanyTier CompanyFeatureGrant COMPANY_FEATURE_TITLES COMPANY_TIER_TITLES DAY_MS)

/-! ### Rows -/

/-- `Object.values(CompanyFeature)`. -/
def allFeatures : List CompanyFeature :=
  [.suggestions, .createLoad, .publishedLoads, .driverRequests, .trips, .drivers, .channels, .agent, .factories]

theorem mem_allFeatures (feature : CompanyFeature) : feature ∈ allFeatures := by
  cases feature <;> decide

theorem nodup_allFeatures : allFeatures.Nodup := by decide

/-- `COMPANY_TIERS`. -/
def COMPANY_TIERS : List CompanyTier := [.bronze, .silver, .gold]

inductive TierMonths where
  | one | three | six | twelve
  deriving DecidableEq, Repr

def TIER_MONTHS : List TierMonths := [.one, .three, .six, .twelve]

def TIER_MONTH_DAYS : TierMonths → ℕ
  | .one => 30
  | .three => 90
  | .six => 180
  | .twelve => 365

inductive VerificationStatus where
  | none | pending | approved | rejected
  deriving DecidableEq, Repr

/-- A row of `User`, as far as its menus depend on it. -/
structure User where
  id : ℕ
  isParentCompany : Bool
  invitedByCompanyUserId : Option ℕ
  verificationStatus : VerificationStatus
  deriving DecidableEq, Repr

structure CompanyFeaturePlan where
  id : ℕ
  feature : CompanyFeature
  title : String
  durationDays : ℕ
  price : ℕ
  currency : String
  sortOrder : ℕ
  active : Bool
  deriving DecidableEq, Repr

structure TierOption where
  months : TierMonths
  price : ℕ
  deriving DecidableEq, Repr

/-- The menus of a tier.  They are only written by `updateTier`, which takes each of the enumeration once. -/
abbrev Menus : Type := { menus : List CompanyFeature // menus.Nodup }

structure CompanyTierPlan where
  tier : CompanyTier
  features : Menus
  options : List TierOption
  currency : String
  active : Bool
  deriving DecidableEq, Repr

inductive OrderStatus where
  | receiptSubmitted | approved | rejected
  deriving DecidableEq, Repr

structure CompanyFeatureOrder where
  id : ℕ
  userId : ℕ
  planId : Option ℕ
  feature : Option CompanyFeature
  tier : Option CompanyTier
  features : Option Menus
  durationDays : ℕ
  amount : ℕ
  currency : String
  status : OrderStatus
  receiptPath : String
  rejectionReason : Option String
  reviewedBy : Option ℕ
  reviewedAt : Option ℤ
  deriving DecidableEq, Repr

/-- The tables, the time, and the orders a transaction holds. -/
structure Store where
  clock : ℤ
  users : Table User.id
  plans : Table CompanyFeaturePlan.id
  tiers : Table CompanyTierPlan.tier
  orders : Table CompanyFeatureOrder.id
  /-- The periods, the latest visible first. -/
  grants : List CompanyFeatureGrant
  orderLocks : List ℕ

/-! ### What is read -/

structure Standing where
  isParent : Bool
  invited : Bool
  verified : Bool
  deriving DecidableEq, Repr

/-- `standing`. -/
def standing (s : Store) (userId : ℕ) : Standing :=
  let user := s.users.get userId
  let isParent := user.any User.isParentCompany
  { isParent := isParent
    invited := !isParent && user.any fun u => u.invitedByCompanyUserId.isSome
    verified := user.all fun u => u.verificationStatus = .approved }

/-- `activeTiers`: the tiers on sale, cheapest first. -/
def activeTiers (s : Store) : List CompanyTierPlan :=
  COMPANY_TIERS.filterMap fun tier => (s.tiers.rows.filter CompanyTierPlan.active).find? fun row => row.tier = tier

/-- `activePlans`, as far as their order does not matter. -/
def activePlans (s : Store) : List CompanyFeaturePlan := s.plans.rows.filter CompanyFeaturePlan.active

/-- `paidFeatures`: the menus a company pays for. -/
def paidFeatures (s : Store) (menuPurchaseOn : Bool) : List CompanyFeature :=
  let paid := (activeTiers s).flatMap fun tier => tier.features.val
  if menuPurchaseOn then paid ++ (activePlans s).map CompanyFeaturePlan.feature else paid

/-- One turn of the first loop of `openGrants`. -/
def openStep (opened : CompanyFeature → Option ℤ) (row : CompanyFeatureGrant) : CompanyFeature → Option ℤ :=
  if (opened row.feature).all (· < row.expireAt) then Function.update opened row.feature (some row.expireAt)
  else opened

/-- `openGrants`: the open menus and the last end of each. -/
def openGrants (s : Store) (userId : ℕ) (now : ℤ) (feature : CompanyFeature) : Option ℤ :=
  let rows := s.grants.filter fun row => row.userId = userId && now < row.expireAt
  let opened := rows.foldl openStep fun _ => none
  if rows.any fun row => row.feature = feature && row.startAt ≤ now then opened feature else none

/-- `lockedFeatures`: the menus this company does not have now. -/
def lockedFeatures (s : Store) (menuPurchaseOn : Bool) (userId : ℕ) (now : ℤ) : List CompanyFeature :=
  if (standing s userId).isParent then []
  else if !(standing s userId).verified then allFeatures
  else
    let locked := if (standing s userId).invited then allFeatures else paidFeatures s menuPurchaseOn
    if locked = [] then locked else locked.filter fun feature => (openGrants s userId now feature).isNone

def hasFeature (s : Store) (menuPurchaseOn : Bool) (userId : ℕ) (feature : CompanyFeature) (now : ℤ) : Bool :=
  !(lockedFeatures s menuPurchaseOn userId now).contains feature

structure CompanyFeatureState where
  feature : CompanyFeature
  title : String
  paid : Bool
  locked : Bool
  expireAt : Option ℤ
  plans : List CompanyFeaturePlan
  tiers : List CompanyTier
  deriving DecidableEq, Repr

/-- `ORDER BY 2 DESC LIMIT 1`. -/
def longest : List (CompanyTier × ℤ) → Option (CompanyTier × ℤ)
  | [] => none
  | x :: xs =>
      match longest xs with
      | some y => some (if x.2 < y.2 then y else x)
      | none => some x

/-- The tier whose time runs longest among those the company bought and still has, and its end. -/
def currentTier (s : Store) (userId : ℕ) (now : ℤ) : Option (CompanyTier × ℤ) :=
  longest ((s.grants.filter fun g => g.userId = userId && now < g.expireAt).filterMap fun g =>
    ((g.orderId.bind s.orders.get).bind CompanyFeatureOrder.tier).map fun tier => (tier, g.expireAt))

structure Status where
  isParent : Bool
  invited : Bool
  verified : Bool
  menuPurchase : Bool
  currentTier : Option (CompanyTier × ℤ)
  features : List CompanyFeatureState
  deriving DecidableEq, Repr

/-- The line of one menu. -/
def featureState (s : Store) (menuPurchaseOn : Bool) (userId : ℕ) (now : ℤ) (feature : CompanyFeature) :
    CompanyFeatureState :=
  let plans := if menuPurchaseOn then activePlans s else []
  let own := plans.filter fun plan => plan.feature = feature
  let inTiers := ((activeTiers s).filter fun tier => tier.features.val.contains feature).map CompanyTierPlan.tier
  let paid := decide (0 < own.length) || decide (0 < inTiers.length)
  let expireAt := openGrants s userId now feature
  { feature := feature
    title := COMPANY_FEATURE_TITLES feature
    paid := paid
    locked := !(standing s userId).isParent &&
      (!(standing s userId).verified || (((standing s userId).invited || paid) && expireAt.isNone))
    expireAt := expireAt
    plans := own
    tiers := inTiers }

/-- `status`, for the purchase page. -/
def status (s : Store) (menuPurchaseOn : Bool) (userId : ℕ) (now : ℤ) : Status where
  isParent := (standing s userId).isParent
  invited := (standing s userId).invited
  verified := (standing s userId).verified
  menuPurchase := menuPurchaseOn
  currentTier := currentTier s userId now
  features := allFeatures.map (featureState s menuPurchaseOn userId now)

/-- What the reminder reads of the same tables. -/
def Store.reminded (s : Store) : PlanExpiry.Database where
  users := ⟨s.users.rows.map fun u => ⟨u.id, u.isParentCompany⟩, by
    rw [List.map_map]
    exact s.users.nodup⟩
  orders := ⟨s.orders.rows.map fun o => ⟨o.id, o.tier⟩, by
    rw [List.map_map]
    exact s.orders.nodup⟩
  grants := s.grants

/-! ### Statements -/

/-- What an approval writes when it commits. -/
structure Approval where
  orderId : ℕ
  grants : List CompanyFeatureGrant
  reviewedBy : ℕ
  reviewedAt : ℤ

inductive FeatureCmd where
  | now
  | findUser (id : ℕ)
  | findPlan (id : ℕ)
  | findTier (tier : CompanyTier)
  | findOpenOrder (userId : ℕ) (feature : CompanyFeature)
  | findOpenTierOrder (userId : ℕ)
  | saveOrder (order : CompanyFeatureOrder)
  | lockOrder (id : ℕ)
  | findLatestGrant (own : List CompanyFeatureGrant) (userId : ℕ) (feature : CompanyFeature) (now : ℤ)
  | commitApproval (approval : Approval)
  | rollback (orderId : ℕ)
  | saveGrant (grant : CompanyFeatureGrant)
  | rejectSubmitted (id adminUserId : ℕ) (reason : String) (now : ℤ)
  | savePlan (plan : CompanyFeaturePlan)
  | deactivate (planId : ℕ)
  | updateTier (plan : CompanyTierPlan)

/-- What each statement answers. -/
@[reducible] def FeatureResp : FeatureCmd → Type
  | .now => ℤ
  | .findUser _ => Option User
  | .findPlan _ => Option CompanyFeaturePlan
  | .findTier _ => Option CompanyTierPlan
  | .findOpenOrder _ _ => Option CompanyFeatureOrder
  | .findOpenTierOrder _ => Option CompanyFeatureOrder
  | .saveOrder _ => Unit
  | .lockOrder _ => Option CompanyFeatureOrder
  | .findLatestGrant _ _ _ _ => Option ℤ
  | .commitApproval _ => Unit
  | .rollback _ => Unit
  | .saveGrant _ => Unit
  | .rejectSubmitted _ _ _ _ => Bool
  | .savePlan _ => Unit
  | .deactivate _ => Bool
  | .updateTier _ => Bool

namespace Store

/-- `ORDER BY "expireAt" DESC LIMIT 1` of the periods of a menu that have not ended, as a transaction sees them that
has inserted some itself. -/
def latestGrant (s : Store) (own : List CompanyFeatureGrant) (userId : ℕ) (feature : CompanyFeature) (now : ℤ) :
    Option ℤ :=
  NullLogic.maxOf (((own ++ s.grants).filter fun g => g.of userId feature && now < g.expireAt).map
    CompanyFeatureGrant.expireAt)

def openOrder (s : Store) (userId : ℕ) (feature : CompanyFeature) : Option CompanyFeatureOrder :=
  s.orders.rows.find? fun o => o.userId = userId && o.feature = some feature && o.status = .receiptSubmitted

def openTierOrder (s : Store) (userId : ℕ) : Option CompanyFeatureOrder :=
  s.orders.rows.find? fun o => o.userId = userId && o.tier.isSome && o.status = .receiptSubmitted

/-- The columns an approval assigns. -/
def approvedOrders (s : Store) (a : Approval) : Table CompanyFeatureOrder.id :=
  match s.orders.get a.orderId with
  | some o => s.orders.put
      { o with status := .approved, reviewedBy := some a.reviewedBy, reviewedAt := some a.reviewedAt }
  | none => s.orders

/-- The rows of an approval become visible, and its order is free again. -/
def commitApproval (s : Store) (a : Approval) : Store :=
  { s with
    grants := a.grants ++ s.grants
    orders := s.approvedOrders a
    orderLocks := s.orderLocks.erase a.orderId }

/-- The conditional update of a rejection: whether a row was updated. -/
def rejectSubmitted (s : Store) (id adminUserId : ℕ) (reason : String) (now : ℤ) : Bool × Store :=
  match s.orders.get id with
  | some o =>
      if o.status = .receiptSubmitted then
        (true, { s with orders := s.orders.put { o with
          status := .rejected, rejectionReason := some reason, reviewedBy := some adminUserId,
          reviewedAt := some now } })
      else (false, s)
  | none => (false, s)

def deactivate (s : Store) (planId : ℕ) : Bool × Store :=
  match s.plans.get planId with
  | some plan => if plan.active then (true, { s with plans := s.plans.put { plan with active := false } }) else (false, s)
  | none => (false, s)

def updateTier (s : Store) (plan : CompanyTierPlan) : Bool × Store :=
  if (s.tiers.get plan.tier).isSome then (true, { s with tiers := s.tiers.put plan }) else (false, s)

/-- A rejection finds the order waiting, or does nothing. -/
theorem rejectSubmitted_cases (s : Store) (orderId adminUserId : ℕ) (reason : String) (now : ℤ) :
    (s.rejectSubmitted orderId adminUserId reason now).2 = s ∨
    ∃ o o', s.orders.get orderId = some o ∧ o.status = .receiptSubmitted ∧ o'.id = orderId ∧ o'.status = .rejected ∧
      (s.rejectSubmitted orderId adminUserId reason now).2 = { s with orders := s.orders.put o' } := by
  unfold Store.rejectSubmitted
  cases hget : s.orders.get orderId with
  | none => exact .inl rfl
  | some o =>
      have hid : o.id = orderId := Table.key_of_get hget
      by_cases hstatus : o.status = .receiptSubmitted
      · refine .inr ⟨o, { o with
          status := .rejected, rejectionReason := some reason, reviewedBy := some adminUserId,
          reviewedAt := some now }, rfl, hstatus, hid, rfl, ?_⟩
        simp [hstatus]
      · exact .inl (by simp [hstatus])

theorem deactivate_plans (s : Store) (planId : ℕ) : ∃ plans, (s.deactivate planId).2 = { s with plans := plans } := by
  unfold deactivate
  split
  · split
    · exact ⟨_, rfl⟩
    · exact ⟨s.plans, rfl⟩
  · exact ⟨s.plans, rfl⟩

theorem updateTier_tiers (s : Store) (plan : CompanyTierPlan) :
    ∃ tiers, (s.updateTier plan).2 = { s with tiers := tiers } := by
  unfold updateTier
  split
  · exact ⟨_, rfl⟩
  · exact ⟨s.tiers, rfl⟩

end Store

/-- What a statement answers and what it writes. -/
def featureExec : (c : FeatureCmd) → Store → FeatureResp c × Store
  | .now, s => (s.clock, s)
  | .findUser id, s => (s.users.get id, s)
  | .findPlan id, s => ((s.plans.get id).filter CompanyFeaturePlan.active, s)
  | .findTier tier, s => ((s.tiers.get tier).filter CompanyTierPlan.active, s)
  | .findOpenOrder userId feature, s => (s.openOrder userId feature, s)
  | .findOpenTierOrder userId, s => (s.openTierOrder userId, s)
  | .saveOrder o, s => ((), { s with orders := s.orders.put { o with id := s.orders.fresh } })
  | .lockOrder id, s => (s.orders.get id, { s with orderLocks := id :: s.orderLocks })
  | .findLatestGrant own userId feature now, s => (s.latestGrant own userId feature now, s)
  | .commitApproval a, s => ((), s.commitApproval a)
  | .rollback orderId, s => ((), { s with orderLocks := s.orderLocks.erase orderId })
  | .saveGrant g, s => ((), { s with grants := g :: s.grants })
  | .rejectSubmitted id adminUserId reason now, s => s.rejectSubmitted id adminUserId reason now
  | .savePlan plan, s => ((), { s with plans := s.plans.put { plan with id := s.plans.fresh } })
  | .deactivate planId, s => s.deactivate planId
  | .updateTier plan, s => s.updateTier plan

/-- The statements that wait for an order somebody holds. -/
def blocked : FeatureCmd → Store → Bool
  | .lockOrder id, s => s.orderLocks.contains id
  | .rejectSubmitted id _ _ _, s => s.orderLocks.contains id
  | _, _ => false

/-! ### The service -/

inductive ServiceError where
  | badRequest (message : String)
  | conflict (message : String)
  | notFound (message : String)
  deriving DecidableEq, Repr

/-- A method of the service. -/
abbrev Features (α : Type) : Type := Prog FeatureResp ServiceError α

/-- One statement, awaited. -/
def issue (c : FeatureCmd) : Features (FeatureResp c) := Prog.perform c

def isParent (userId : ℕ) : Features Bool := do
  let user ← issue (.findUser userId)
  pure (user.any User.isParentCompany)

/-- `createPlan`. -/
def createPlan (plan : CompanyFeaturePlan) : Features Unit := issue (.savePlan { plan with active := true })

def deactivatePlan (id : ℕ) : Features Unit := do
  let affected ← issue (.deactivate id)
  .refuseIf (affected = false) (.notFound "پلن پیدا نشد.")

structure UpdateTierInput where
  features : List CompanyFeature
  options : List TierOption
  currency : String
  active : Bool

/-- The menus of an input, in the order of the enumeration. -/
def UpdateTierInput.chosen (input : UpdateTierInput) : Menus :=
  ⟨allFeatures.filter fun feature => input.features.contains feature, nodup_allFeatures.filter _⟩

/-- The priced periods of an input, the shortest first. -/
def UpdateTierInput.priced (input : UpdateTierInput) : List TierOption :=
  (TIER_MONTHS.filterMap fun months => input.options.find? fun option => option.months = months).filter
    fun option => 0 < option.price

def updateTier (tier : CompanyTier) (input : UpdateTierInput) : Features Unit := do
  .refuseIf (input.active = true ∧ (input.chosen.val = [] ∨ input.priced = []))
    (.badRequest "طرح فعال باید دست‌کم یک بخش و قیمت دست‌کم یک مدت را داشته باشد.")
  let affected ← issue (.updateTier ⟨tier, input.chosen, input.priced, input.currency, input.active⟩)
  .refuseIf (affected = false) (.notFound "طرح پیدا نشد.")

def submitTierOrder (userId : ℕ) (tier : CompanyTier) (months : TierMonths) (receiptPath : String) :
    Features Unit := do
  let parent ← isParent userId
  .refuseIf (parent = true) (.badRequest "شرکت مادر همه‌ی بخش‌ها را بدون خرید دارد.")
  let found ← issue (.findTier tier)
  let plan ← .orThrow (.notFound "این طرح فعال نیست.") (found.filter fun plan => plan.features.val ≠ [])
  let option ← .orThrow (.notFound "این طرح برای این مدت فروخته نمی‌شود.")
    (plan.options.find? fun option => option.months = months)
  let opened ← issue (.findOpenTierOrder userId)
  .refuseIf (opened.isSome = true) (.conflict "رسید قبلی شما در حال بررسی است.")
  issue (.saveOrder
    { id := 0, userId := userId, planId := none, feature := none, tier := some tier
      features := some plan.features, durationDays := TIER_MONTH_DAYS months, amount := option.price
      currency := plan.currency, status := .receiptSubmitted, receiptPath := receiptPath
      rejectionReason := none, reviewedBy := none, reviewedAt := none })

def submitOrder (menuPurchaseOn : Bool) (userId planId : ℕ) (receiptPath : String) : Features Unit := do
  .refuseIf (menuPurchaseOn = false)
    (.badRequest "خرید بخش‌به‌بخش فعلاً بسته است؛ یکی از طرح‌های برنزی، نقره‌ای یا طلایی را بخرید.")
  let parent ← isParent userId
  .refuseIf (parent = true) (.badRequest "شرکت مادر همه‌ی بخش‌ها را بدون خرید دارد.")
  let found ← issue (.findPlan planId)
  let plan ← .orThrow (.notFound "این پلن فعال نیست.") found
  let opened ← issue (.findOpenOrder userId plan.feature)
  .refuseIf (opened.isSome = true) (.conflict "رسید قبلی شما برای همین بخش در حال بررسی است.")
  issue (.saveOrder
    { id := 0, userId := userId, planId := some plan.id, feature := some plan.feature, tier := none
      features := none, durationDays := plan.durationDays, amount := plan.price
      currency := plan.currency, status := .receiptSubmitted, receiptPath := receiptPath
      rejectionReason := none, reviewedBy := none, reviewedAt := none })

/-- The row `addGrant` creates behind the latest end. -/
def newGrant (userId : ℕ) (feature : CompanyFeature) (days : ℕ) (now : ℤ) (latest : Option ℤ) (orderId : Option ℕ) :
    CompanyFeatureGrant :=
  let startAt := latest.getD now
  { userId := userId, feature := feature, startAt := startAt, expireAt := startAt + days * DAY_MS, orderId := orderId }

/-- `addGrant` in the transaction of an approval, for one menu after the other. -/
def addGrants (order : CompanyFeatureOrder) (now : ℤ) : List CompanyFeature → List CompanyFeatureGrant →
    Features (List CompanyFeatureGrant)
  | [], own => pure own
  | feature :: features, own => do
      let latest ← issue (.findLatestGrant own order.userId feature now)
      addGrants order now features (newGrant order.userId feature order.durationDays now latest (some order.id) :: own)

/-- The menus an order bought. -/
def CompanyFeatureOrder.menus (o : CompanyFeatureOrder) : List CompanyFeature :=
  if o.tier.isSome then (o.features.map Subtype.val).getD [] else o.feature.toList

/-- The transaction of `approveOrder`. -/
def approveIn (orderId adminUserId : ℕ) (now : ℤ) : Features Unit := do
  let found ← issue (.lockOrder orderId)
  let order ← .orThrow (.notFound "سفارش پیدا نشد.") found
  .refuseIf (order.status ≠ .receiptSubmitted) (.conflict "این سفارش قبلاً بررسی شده است.")
  let grants ← addGrants order now order.menus []
  .refuseIf (grants = []) (.conflict "این سفارش هیچ بخشی ندارد.")
  issue (.commitApproval ⟨order.id, grants, adminUserId, now⟩)

/-- `approveOrder`: what throws is rolled back. -/
def approveOrder (orderId adminUserId : ℕ) : Features Unit := do
  let now ← issue .now
  match ← (approveIn orderId adminUserId now).attempt with
  | .ok _ => pure ()
  | .error e => do
      issue (.rollback orderId)
      .throw e

def rejectOrder (orderId adminUserId : ℕ) (reason : String) : Features Unit := do
  let now ← issue .now
  let affected ← issue (.rejectSubmitted orderId adminUserId reason now)
  .refuseIf (affected = false) (.conflict "سفارشی در انتظار بررسی با این شناسه نیست.")

/-- `grant`: a menu without a purchase. -/
def grant (userId : ℕ) (feature : CompanyFeature) (days : ℕ) : Features Unit := do
  let now ← issue .now
  let latest ← issue (.findLatestGrant [] userId feature now)
  issue (.saveGrant (newGrant userId feature days now latest none))

/-! ### Calls side by side -/

inductive Call where
  | approveOrder (orderId adminUserId : ℕ)
  | rejectOrder (orderId adminUserId : ℕ) (reason : String)
  | grant (userId : ℕ) (feature : CompanyFeature) (days : ℕ)
  | submitOrder (menuPurchaseOn : Bool) (userId planId : ℕ) (receiptPath : String)
  | submitTierOrder (userId : ℕ) (tier : CompanyTier) (months : TierMonths) (receiptPath : String)
  | createPlan (plan : CompanyFeaturePlan)
  | deactivatePlan (id : ℕ)
  | updateTier (tier : CompanyTier) (input : UpdateTierInput)

def Call.prog : Call → Features Unit
  | .approveOrder orderId adminUserId => CompanyFeatures.approveOrder orderId adminUserId
  | .rejectOrder orderId adminUserId reason => CompanyFeatures.rejectOrder orderId adminUserId reason
  | .grant userId feature days => CompanyFeatures.grant userId feature days
  | .submitOrder on userId planId receiptPath => CompanyFeatures.submitOrder on userId planId receiptPath
  | .submitTierOrder userId tier months receiptPath => CompanyFeatures.submitTierOrder userId tier months receiptPath
  | .createPlan plan => CompanyFeatures.createPlan plan
  | .deactivatePlan id => CompanyFeatures.deactivatePlan id
  | .updateTier tier input => CompanyFeatures.updateTier tier input

/-- What happens outside of the service: time passes, or an account is made or changed. -/
inductive Outside where
  | tick (ms : ℕ)
  | saveUser (user : User)

def Outside.apply : Outside → Store → Store
  | .tick ms, s => { s with clock := s.clock + ms }
  | .saveUser user, s => { s with users := s.users.put user }

/-- Any number of calls on the tables. -/
def machine : Machine FeatureResp ServiceError Store where
  Choice := Unit
  Outside := Outside
  Call := Call
  exec _ c s := if blocked c s then none else some (featureExec c s)
  outside o s := some (o.apply s)
  begin call s := some (call.prog, s)

end TransportBackend.CompanyFeatures
