import TransportBackend.CommandSum
import TransportBackend.SubscriptionStore
import TransportBackend.TripStore

/-!
# A broker's credits, orders and companies: the tables and the statements on them

The rows `BrokerRequestCredit`, `BrokerAccessOrder` and `BrokerAccessPeriod`, the policy the admin sets
and the companies a broker may pick, with every statement `BrokerAccessService` issues, each one atomic
command (`AccessCmd`) with its effect (`exec`).  The trip service's commands stand beside them
(`BrokerCmd`): a load request is charged here and saved there.

As in the subscription tables, a transaction holds the order's row from its first read to its last
command, in which everything it writes becomes visible.  An update of a row somebody holds waits
(`blocked`) and then looks at the row again.

What the tables do not decide is in a `World`: whether a save is refused by an error of the database,
and the copy of the policy an instance holds for five seconds.  Announcements, receipts' files and texts
for pages are left out.
-/

namespace TransportBackend.BrokerStore

open TransportBackend.AtomicProgram
open TransportBackend.CommandSum
open TransportBackend.KeyedTable
open TransportBackend.TripStore (TripCmd ServiceError)
open TransportBackend.SubscriptionStore (SubscriptionOrderStatus)

/-! ### Rows -/

/-- `BrokerOrderKind`. -/
inductive BrokerOrderKind where
  | new
  | add
  | package
  | suggestion
  deriving DecidableEq, Repr

/-- A row of `BrokerAccessOrder`; times are milliseconds. -/
structure BrokerAccessOrder where
  id : ℕ
  userId : ℕ
  kind : BrokerOrderKind
  companyUserIds : List ℕ
  requests : Option ℕ
  amount : ℕ
  currency : String
  status : SubscriptionOrderStatus
  receiptPath : String
  rejectionReason : Option String
  reviewedBy : Option ℕ
  reviewedAt : Option ℕ
  deriving DecidableEq, Repr

/-- A row of `BrokerAccessPeriod`. -/
structure BrokerAccessPeriod where
  id : ℕ
  userId : ℕ
  companyUserIds : List ℕ
  startAt : ℕ
  expireAt : Option ℕ
  orderId : Option ℕ
  deriving DecidableEq, Repr

/-- A row of `BrokerRequestCredit`. -/
structure BrokerRequestCredit where
  userId : ℕ
  remaining : ℤ
  deriving DecidableEq, Repr

/-- `BrokerAccessPolicy`, without the commission: that is the trip service's. -/
structure BrokerAccessPolicy where
  maxCompanies : Option ℕ
  packagesEnabled : Bool
  packageSize : ℕ
  packagePrice : ℕ
  currency : String
  deriving DecidableEq, Repr

/-- A row of `listCompanies`: an active account with a company's role. -/
structure Company where
  userId : ℕ
  isParentCompany : Bool
  invitedByCompanyUserId : Option ℕ
  deriving DecidableEq, Repr

namespace BrokerAccessOrder

/-- The columns an approval updates. -/
def approvedBy (adminUserId now : ℕ) (o : BrokerAccessOrder) : BrokerAccessOrder :=
  { o with status := .approved, reviewedBy := some adminUserId, reviewedAt := some now }

/-- The columns a rejection updates. -/
def rejectedBy (adminUserId : ℕ) (reason : String) (now : ℕ) (o : BrokerAccessOrder) :
    BrokerAccessOrder :=
  { o with
    status := .rejected
    rejectionReason := some reason
    reviewedBy := some adminUserId
    reviewedAt := some now }

/-- The requests an approved order adds to the broker's own. -/
def credit (o : BrokerAccessOrder) : ℕ := if o.kind = .package then o.requests.getD 0 else 0

end BrokerAccessOrder

namespace BrokerAccessPeriod

/-- `startAt <= now`, and no end or one after now. -/
def open_ (now : ℕ) (p : BrokerAccessPeriod) : Bool := p.startAt ≤ now && p.expireAt.all (now < ·)

/-- The columns a new pick updates: it has no end. -/
def picking (companyUserIds : List ℕ) (p : BrokerAccessPeriod) : BrokerAccessPeriod :=
  { p with companyUserIds := companyUserIds, expireAt := none }

end BrokerAccessPeriod

/-! ### The store -/

/-- The tables, the policy in force and the locks held. -/
structure AccessStore where
  orders : Table BrokerAccessOrder.id
  periods : Table BrokerAccessPeriod.id
  credits : Table BrokerRequestCredit.userId
  policy : BrokerAccessPolicy
  companies : List Company
  brokers : List ℕ
  orderLocks : List ℕ

/-- What an approval writes beside the order: the credit, and the pick it read with the companies an
older purchase adds to it. -/
structure Approval where
  order : BrokerAccessOrder
  adminUserId : ℕ
  now : ℕ
  selection : Option BrokerAccessPeriod

/-- The statements. -/
inductive AccessCmd where
  | isBroker (userId : ℕ)
  | getPolicy
  | takeCredit (userId : ℕ)
  | refundCredit (userId : ℕ)
  | grantCredit (userId requests : ℕ)
  | findCredit (userId : ℕ)
  | findOpenOrder (userId : ℕ)
  | saveOrder (order : BrokerAccessOrder)
  | lockOrder (id : ℕ)
  | currentSelection (userId now : ℕ)
  | commitApproval (approval : Approval)
  | rollback (orderId : ℕ)
  | rejectSubmitted (id adminUserId : ℕ) (reason : String) (now : ℕ)
  | findOrder (id : ℕ)
  | listCompanies
  | commitSelection (userId : ℕ) (companyUserIds : List ℕ) (now : ℕ)
  | dropCompany (userId companyUserId : ℕ)

/-- What each statement answers. -/
@[reducible] def AccessResp : AccessCmd → Type
  | .isBroker _ => Bool
  | .getPolicy => BrokerAccessPolicy
  | .takeCredit _ => Bool
  | .refundCredit _ => Unit
  | .grantCredit _ _ => Unit
  | .findCredit _ => Option BrokerRequestCredit
  | .findOpenOrder _ => Option BrokerAccessOrder
  | .saveOrder _ => Option BrokerAccessOrder
  | .lockOrder _ => Option BrokerAccessOrder
  | .currentSelection _ _ => Option BrokerAccessPeriod
  | .commitApproval _ => Bool
  | .rollback _ => Unit
  | .rejectSubmitted _ _ _ _ => Bool
  | .findOrder _ => Option BrokerAccessOrder
  | .listCompanies => List Company
  | .commitSelection _ _ _ => Unit
  | .dropCompany _ _ => Unit

/-- What the tables do not decide. -/
structure World where
  held : Option BrokerAccessPolicy
  fails : Bool

/-! ### Queries -/

/-- `ORDER BY "startAt" DESC LIMIT 1`. -/
def latestStarted : List BrokerAccessPeriod → Option BrokerAccessPeriod
  | [] => none
  | p :: ps =>
      match latestStarted ps with
      | some q => some (if p.startAt < q.startAt then q else p)
      | none => some p

namespace AccessStore

/-- The requests a broker has left. -/
def remaining (s : AccessStore) (userId : ℕ) : ℤ :=
  ((s.credits.get userId).map BrokerRequestCredit.remaining).getD 0

/-- The companies picked. -/
def currentSelection (s : AccessStore) (userId now : ℕ) : Option BrokerAccessPeriod :=
  latestStarted (s.periods.rows.filter fun p => p.userId = userId && p.open_ now)

def openOrder (s : AccessStore) (userId : ℕ) : Option BrokerAccessOrder :=
  s.orders.rows.find? fun o =>
    o.userId = userId && o.kind = .package && o.status = .receiptSubmitted

/-! ### Writes -/

/-- `addCredit`: an insert, or an increment of the row that is there. -/
def addCredit (s : AccessStore) (userId count : ℕ) : AccessStore :=
  { s with credits := s.credits.put ⟨userId, s.remaining userId + count⟩ }

/-- The conditional decrement: whether a row was updated. -/
def takeCredit (s : AccessStore) (userId : ℕ) : Bool × AccessStore :=
  if 0 < s.remaining userId then
    (true, { s with credits := s.credits.put ⟨userId, s.remaining userId - 1⟩ })
  else (false, s)

/-- The order as it is inserted. -/
def newOrder (s : AccessStore) (o : BrokerAccessOrder) : BrokerAccessOrder :=
  { o with id := s.orders.fresh }

def saveOrder (s : AccessStore) (o : BrokerAccessOrder) : Option BrokerAccessOrder × AccessStore :=
  (some (s.newOrder o), { s with orders := s.orders.put (s.newOrder o) })

/-- A pick written to its row, or to a new one. -/
def putPeriod (s : AccessStore) (p : BrokerAccessPeriod) : AccessStore :=
  { s with
    periods := s.periods.put (if p.id = 0 then { p with id := s.periods.fresh } else p) }

/-- The `update` of an approved order. -/
def markApproved (s : AccessStore) (a : Approval) : AccessStore :=
  match s.orders.get a.order.id with
  | some o => { s with orders := s.orders.put (o.approvedBy a.adminUserId a.now) }
  | none => s

/-- The credit of an approved package. -/
def creditApproval (s : AccessStore) (a : Approval) : AccessStore :=
  if a.order.kind = .package then s.addCredit a.order.userId a.order.credit else s

/-- The pick of an approved older purchase. -/
def pickApproval (s : AccessStore) (a : Approval) : AccessStore :=
  match a.selection with
  | some p => s.putPeriod p
  | none => s

/-- Everything an approval writes. -/
def approved (s : AccessStore) (a : Approval) : AccessStore :=
  { ((s.creditApproval a).pickApproval a).markApproved a with
    orderLocks := s.orderLocks.erase a.order.id }

/-- The conditional update of a rejection: whether a row was updated. -/
def rejectSubmitted (s : AccessStore) (id adminUserId : ℕ) (reason : String) (now : ℕ) :
    Bool × AccessStore :=
  match s.orders.get id with
  | some o =>
      if o.status = .receiptSubmitted then
        (true, { s with orders := s.orders.put (o.rejectedBy adminUserId reason now) })
      else (false, s)
  | none => (false, s)

/-- A new pick of a broker that has none. -/
def newPeriod (userId : ℕ) (companyUserIds : List ℕ) (now : ℕ) (orderId : Option ℕ) :
    BrokerAccessPeriod where
  id := 0
  userId := userId
  companyUserIds := companyUserIds
  startAt := now
  expireAt := none
  orderId := orderId

/-- The transaction of `selectCompanies`. -/
def commitSelection (s : AccessStore) (userId : ℕ) (companyUserIds : List ℕ) (now : ℕ) :
    AccessStore :=
  match s.currentSelection userId now with
  | some current => { s with periods := s.periods.put (current.picking companyUserIds) }
  | none => s.putPeriod (newPeriod userId companyUserIds now none)

/-- The row without the company: `array_remove`. -/
def dropFrom (userId companyUserId : ℕ) (p : BrokerAccessPeriod) : BrokerAccessPeriod :=
  if p.userId = userId then
    { p with companyUserIds := p.companyUserIds.filter (· ≠ companyUserId) }
  else p

theorem dropFrom_id (userId companyUserId : ℕ) (p : BrokerAccessPeriod) :
    (dropFrom userId companyUserId p).id = p.id := by
  unfold dropFrom
  split <;> rfl

def dropCompany (s : AccessStore) (userId companyUserId : ℕ) : AccessStore :=
  { s with
    periods := s.periods.map (dropFrom userId companyUserId) (dropFrom_id userId companyUserId) }

end AccessStore

/-! ### Commands -/

/-- What a statement answers and what it writes. -/
def accessExec (w : World) : (c : AccessCmd) → AccessStore → AccessResp c × AccessStore
  | .isBroker userId, s => (decide (userId ∈ s.brokers), s)
  | .getPolicy, s => (w.held.getD s.policy, s)
  | .takeCredit userId, s => s.takeCredit userId
  | .refundCredit userId, s => ((), s.addCredit userId 1)
  | .grantCredit userId requests, s => ((), s.addCredit userId requests)
  | .findCredit userId, s => (s.credits.get userId, s)
  | .findOpenOrder userId, s => (s.openOrder userId, s)
  | .saveOrder o, s => if w.fails then (none, s) else s.saveOrder o
  | .lockOrder id, s => (s.orders.get id, { s with orderLocks := id :: s.orderLocks })
  | .currentSelection userId now, s => (s.currentSelection userId now, s)
  | .commitApproval a, s => if w.fails then (false, s) else (true, s.approved a)
  | .rollback orderId, s => ((), { s with orderLocks := s.orderLocks.erase orderId })
  | .rejectSubmitted id adminUserId reason now, s => s.rejectSubmitted id adminUserId reason now
  | .findOrder id, s => (s.orders.get id, s)
  | .listCompanies, s => (s.companies, s)
  | .commitSelection userId ids now, s => ((), s.commitSelection userId ids now)
  | .dropCompany userId companyUserId, s => ((), s.dropCompany userId companyUserId)

/-- The statements that wait for an order somebody holds. -/
def blocked : AccessCmd → AccessStore → Bool
  | .lockOrder id, s => id ∈ s.orderLocks
  | .rejectSubmitted id _ _ _, s => id ∈ s.orderLocks
  | _, _ => false

/-! ### Both services -/

/-- The commands of the trip service and of the broker's access. -/
abbrev BrokerCmd : Type := TripCmd ⊕ AccessCmd

/-- Their answers. -/
abbrev Resp : BrokerCmd → Type := RespSum TripStore.Resp AccessResp

/-- Both stores. -/
structure Store where
  trips : TripStore.Store
  access : AccessStore

/-- What a save of a request answers when the database refuses it. -/
def refusedSave : (c : TripCmd) → Option (TripStore.Resp c)
  | .insertRequest _ _ => some none
  | .saveRequest _ _ _ => some .uniqueViolation
  | _ => none

/-- What a command answers and what it writes. -/
def exec (w : World) : (c : BrokerCmd) → Store → Resp c × Store
  | .inl c, s =>
      match (refusedSave c).filter fun _ => w.fails with
      | some refused => (refused, s)
      | none => ((TripStore.exec c s.trips).1, { s with trips := (TripStore.exec c s.trips).2 })
  | .inr c, s => ((accessExec w c s.access).1, { s with access := (accessExec w c s.access).2 })

/-- The commands that wait. -/
def waits : BrokerCmd → Store → Bool
  | .inl _, _ => false
  | .inr c, s => blocked c s.access

/-- A method of either service. -/
abbrev Broker (α : Type) : Type := Prog Resp ServiceError α

/-- A part of the trip service. -/
def trip {α : Type} (p : TripStore.Trip α) : Broker α := onLeft p

/-- One statement, awaited. -/
def access (c : AccessCmd) : Broker (AccessResp c) := Prog.perform (Sum.inr c)

/-- `new Date()`. -/
def dateNow : Broker ℕ := trip TripStore.dateNow

end TransportBackend.BrokerStore
