import TransportBackend.CommandSum
import TransportBackend.NullLogic
import TransportBackend.TripService

/-!
# What a company owes a broker: the queries and the service

`BrokerLedgerService`: the account of a company with each broker is worked out by one query over the
delivered requests, their delivered fares and the payments (`BrokerSettlement`).  The query's columns are
written as it writes them, with its fallbacks and its nulls:

* `companyFare`, `onCommission`, `commission` — the expressions over one request and its delivered fare;
* `tripGroup`, `accountsOf` — the groups, the full join with the payments and the account of each;
* `tripLines` — the trips `detail` lists;
* `accounts`, `detail`, `settle`, `removeSettlement` — the service.

Amounts are whole numbers (`bigint`, or `numeric` with nothing after the point); the texts of a load are
left out, and accounts with the same balance come in no particular order.
-/

namespace TransportBackend.BrokerLedger

open TransportBackend.AtomicProgram
open TransportBackend.CommandSum
open TransportBackend.KeyedTable
open TransportBackend.NullLogic
open TransportBackend.TripFareRules
open TransportBackend.TripStore (CargoRequest CargoRequestStatus BrokerDriver Tables TripCmd ServiceError)

/-! ### Rows -/

/-- A row of `BrokerSettlement`. -/
structure BrokerSettlement where
  id : ℕ
  companyUserId : ℕ
  brokerUserId : ℕ
  amount : ℕ
  note : Option String
  createdByUserId : Option ℕ
  createdAt : ℕ
  deriving DecidableEq, Repr

/-- A row of `User`, as far as an account shows it. -/
structure User where
  id : ℕ
  companyName : Option String
  firstName : Option String
  lastName : Option String
  mobile : Option String
  accountCode : Option String
  deriving DecidableEq, Repr

/-- `BROKER_NAME`. -/
def brokerName (b : User) : Option String :=
  ((nullIf b.companyName "").or
    (nullIf (some (String.intercalate " " [b.firstName, b.lastName].reduceOption)) "")).or b.mobile

/-- `BrokerAccount`, with its broker. -/
structure BrokerAccount where
  userId : ℕ
  name : Option String
  mobile : Option String
  accountCode : Option String
  drivers : ℕ
  trips : ℕ
  fares : ℤ
  unpriced : ℕ
  commissionTrips : ℕ
  marginTrips : ℕ
  earned : ℤ
  margin : ℤ
  paid : ℤ
  remaining : ℤ
  deriving DecidableEq, Repr

/-- A trip `detail` lists. -/
structure TripLine where
  id : ℕ
  deliveredAt : Option ℕ
  exitBorder : Option String
  driverName : Option String
  driverMobile : Option String
  fare : Option String
  payModel : BrokerPayModel
  companyFare : Option ℤ
  companyFareCurrency : Option FareCurrency
  weightTons : Option ℚ
  commission : Option ℤ
  percent : Option ℕ
  margin : Option ℤ
  deriving DecidableEq, Repr

/-! ### The expressions -/

/-- A request and its `DELIVERED` fare: `r` and `d` of the queries. -/
abbrev LedgerRow : Type := CargoRequest × Option TripFare

/-- `r."forDriver"->>'fare'`. -/
def driverFare (x : LedgerRow) : Option String := x.1.forDriver.bind BrokerDriver.fare

/-- `NUMERIC_FARE`. -/
def numericFare (x : LedgerRow) : Truth :=
  (driverFare x).map fun fare => decide (fare.toList ≠ []) && fare.toList.all Char.isDigit

/-- `(r."forDriver"->>'fare')::numeric`. -/
def fareNumber (x : LedgerRow) : Option ℤ :=
  (driverFare x).map fun fare => (TripService.digitsValue fare.toList : ℤ)

/-- `COMPANY_FARE`. -/
def companyFare (x : LedgerRow) : Option ℤ :=
  caseWhen (some x.2.isSome)
    (x.2.bind fun d => caseWhen (some (decide (d.currency = .toman))) (some d.total) none)
    (caseWhen (numericFare x) (fareNumber x) none)

/-- `ON_COMMISSION`. -/
def onCommission (x : LedgerRow) : Truth :=
  some (decide (x.1.brokerPayModel.getD .commission = .commission))

/-- `round(fare * $2 / 100)`: the percent is in hundredths, halves go up. -/
def todaysCommission (percent : ℕ) (fare : ℤ) : ℤ := round ((fare : ℚ) * (percent / 100) / 100)

/-- `COMMISSION`, at today's percent. -/
def commission (percent : ℕ) (x : LedgerRow) : Option ℤ :=
  caseWhen (onCommission x)
    (x.1.brokerCommission.or
      (caseWhen (and3 (some x.2.isNone) (numericFare x))
        ((fareNumber x).map (todaysCommission percent)) none))
    none

/-! ### The queries -/

/-- A delivered request a broker made on this company's loads. -/
def ofLedger (companyUserId : ℕ) (r : CargoRequest) : Bool :=
  r.companyUserId = companyUserId && r.forDriver.isSome && r.status = .delivered

/-- `LEFT JOIN "TripFare" d`: a request has one delivered fare at most. -/
def withFare (T : Tables) (r : CargoRequest) : LedgerRow := (r, T.fares.get (r.id, .delivered))

/-- The rows both queries are about. -/
def ledgerRows (T : Tables) (companyUserId : ℕ) : List LedgerRow :=
  (T.requests.rows.filter (ofLedger companyUserId)).map (withFare T)

/-- Those of one broker. -/
def brokerRows (T : Tables) (companyUserId brokerUserId : ℕ) : List LedgerRow :=
  (ledgerRows T companyUserId).filter fun x => x.1.driverUserId = brokerUserId

/-- A group of the `trips` part. -/
structure TripGroup where
  drivers : ℕ
  trips : ℕ
  fares : ℤ
  unpriced : ℕ
  commissionTrips : ℕ
  marginTrips : ℕ
  earned : ℤ
  margin : ℤ
  deriving DecidableEq, Repr

/-- The aggregates of a group; a broker without rows has no group. -/
def tripGroup (percent : ℕ) (rows : List LedgerRow) : Option TripGroup :=
  if rows = [] then none
  else some
    { drivers := (rows.filterMap fun x => x.1.forDriver.map BrokerDriver.mobile).dedup.length
      trips := rows.length
      fares := (sumOf (rows.map companyFare)).getD 0
      unpriced := countWhere
        (fun x => and3 (onCommission x) (some (commission percent x).isNone)) rows
      commissionTrips := countWhere onCommission rows
      marginTrips := countWhere (fun x => not3 (onCommission x)) rows
      earned := (sumOf (rows.map (commission percent))).getD 0
      margin := (sumOf ((rows.filter fun x => not3 (onCommission x) = some true).map
        fun x => x.1.brokerMargin)).getD 0 }

/-- The `paid` part. -/
def paidGroup (rows : List BrokerSettlement) : Option ℤ := sumOf (rows.map fun x => some (x.amount : ℤ))

/-- The store: the trip tables, the payments and the users. -/
structure Store where
  trips : TripStore.Store
  settlements : Table BrokerSettlement.id
  users : Table User.id

/-- The payments of a company to a broker. -/
def paidRows (s : Store) (companyUserId brokerUserId : ℕ) : List BrokerSettlement :=
  s.settlements.rows.filter fun x => x.companyUserId = companyUserId && x.brokerUserId = brokerUserId

/-- The line of one broker. -/
def accountLine (b : User) (t : Option TripGroup) (p : Option ℤ) : BrokerAccount where
  userId := b.id
  name := brokerName b
  mobile := b.mobile
  accountCode := b.accountCode
  drivers := (t.map TripGroup.drivers).getD 0
  trips := (t.map TripGroup.trips).getD 0
  fares := (t.map TripGroup.fares).getD 0
  unpriced := (t.map TripGroup.unpriced).getD 0
  commissionTrips := (t.map TripGroup.commissionTrips).getD 0
  marginTrips := (t.map TripGroup.marginTrips).getD 0
  earned := (t.map TripGroup.earned).getD 0
  margin := (t.map TripGroup.margin).getD 0
  paid := p.getD 0
  remaining := (t.map TripGroup.earned).getD 0 - p.getD 0

/-- The brokers of either part. -/
def ledgerBrokers (s : Store) (companyUserId : ℕ) : List ℕ :=
  ((ledgerRows s.trips.toTables companyUserId).map (fun x => x.1.driverUserId) ++
    (s.settlements.rows.filter fun x => x.companyUserId = companyUserId).map
      BrokerSettlement.brokerUserId).dedup

/-- The account of a user with the company. -/
def accountOfUser (s : Store) (companyUserId percent : ℕ) (b : User) : BrokerAccount :=
  accountLine b (tripGroup percent (brokerRows s.trips.toTables companyUserId b.id))
    (paidGroup (paidRows s companyUserId b.id))

/-- The query of `accounts`. -/
def accountsOf (s : Store) (companyUserId percent : ℕ) : List BrokerAccount :=
  (((ledgerBrokers s companyUserId).filterMap s.users.get).map
    (accountOfUser s companyUserId percent)).insertionSort fun a b => b.remaining ≤ a.remaining

/-- `deliveredAt DESC NULLS LAST`. -/
def laterDelivered (a b : TripLine) : Prop := b.deliveredAt.all fun y => a.deliveredAt.any (y ≤ ·)

instance : DecidableRel laterDelivered := fun a b =>
  inferInstanceAs (Decidable ((b.deliveredAt.all fun y => a.deliveredAt.any (y ≤ ·)) = true))

/-- The line of one trip. -/
def tripLine (percent : ℕ) (x : LedgerRow) : TripLine where
  id := x.1.id
  deliveredAt := x.1.deliveredAt
  exitBorder := x.1.exitBorder
  driverName := x.1.forDriver.map BrokerDriver.name
  driverMobile := x.1.forDriver.map BrokerDriver.mobile
  fare := driverFare x
  payModel := x.1.brokerPayModel.getD .commission
  companyFare := x.2.map TripFare.total
  companyFareCurrency := x.2.map TripFare.currency
  weightTons := x.2.map fun d => (d.weightTons : ℚ) / 100
  commission := commission percent x
  percent := caseWhen (onCommission x) (some (x.1.brokerCommissionPercent.getD percent)) none
  margin := x.1.brokerMargin

/-- The query of `detail`: only requests whose load is there. -/
def tripLines (s : Store) (companyUserId brokerUserId percent : ℕ) : List TripLine :=
  (((brokerRows s.trips.toTables companyUserId brokerUserId).filter fun x =>
    (s.trips.listings.get x.1.listingId).isSome).map (tripLine percent)).insertionSort laterDelivered

/-! ### Commands -/

/-- The ledger's own statements. -/
inductive LedgerCmd where
  | accounts (companyUserId percent : ℕ)
  | trips (companyUserId brokerUserId percent : ℕ)
  | findSettlements (companyUserId brokerUserId : ℕ)
  | saveSettlement (row : BrokerSettlement)
  | findSettlement (companyUserId id : ℕ)
  | deleteSettlement (id : ℕ)

/-- What each statement answers. -/
@[reducible] def LedgerResp : LedgerCmd → Type
  | .accounts _ _ => List BrokerAccount
  | .trips _ _ _ => List TripLine
  | .findSettlements _ _ => List BrokerSettlement
  | .saveSettlement _ => Unit
  | .findSettlement _ _ => Option BrokerSettlement
  | .deleteSettlement _ => Unit

/-- A payment as it is inserted. -/
def Store.newSettlement (s : Store) (row : BrokerSettlement) : BrokerSettlement :=
  { row with id := s.settlements.fresh, createdAt := s.trips.clock }

/-- A payment taken back. -/
def Store.dropSettlement (s : Store) (id : ℕ) : Store :=
  { s with
    settlements :=
      { rows := s.settlements.rows.filter fun x => x.id ≠ id
        nodup := s.settlements.nodup.sublist (List.filter_sublist.map _) } }

/-- What a statement of the ledger answers and writes. -/
def ledgerExec : (c : LedgerCmd) → Store → LedgerResp c × Store
  | .accounts company percent, s => (accountsOf s company percent, s)
  | .trips company broker percent, s => (tripLines s company broker percent, s)
  | .findSettlements company broker, s =>
      ((paidRows s company broker).insertionSort fun a b => b.createdAt ≤ a.createdAt, s)
  | .saveSettlement row, s =>
      ((), { s with settlements := s.settlements.put (s.newSettlement row) })
  | .findSettlement company id, s =>
      ((s.settlements.get id).filter fun x => x.companyUserId = company, s)
  | .deleteSettlement id, s => ((), s.dropSettlement id)

/-- The trip service's commands and the ledger's. -/
abbrev Cmd : Type := TripCmd ⊕ LedgerCmd

/-- Their answers. -/
abbrev Resp : Cmd → Type := RespSum TripStore.Resp LedgerResp

/-- What a command answers and what it writes. -/
def exec : (c : Cmd) → Store → Resp c × Store
  | .inl c, s => ((TripStore.exec c s.trips).1, { s with trips := (TripStore.exec c s.trips).2 })
  | .inr c, s => ledgerExec c s

/-- A method of the ledger. -/
abbrev Ledger (α : Type) : Type := Prog Resp ServiceError α

/-- A part of the trip service, or of the policy it reads. -/
def trip {α : Type} (p : TripStore.Trip α) : Ledger α := onLeft p

/-- One statement, awaited. -/
def issue (c : LedgerCmd) : Ledger (LedgerResp c) := Prog.perform (Sum.inr c)

/-! ### The service -/

/-- `accounts`: the percent in force and the accounts. -/
def accounts (companyUserId : ℕ) : Ledger (ℕ × List BrokerAccount) := do
  let commissionPercent ← trip TripService.getPolicy
  let rows ← issue (.accounts companyUserId commissionPercent)
  pure (commissionPercent, rows)

/-- The account with one broker. -/
def accountWith (companyUserId brokerUserId : ℕ) : Ledger BrokerAccount := do
  let all ← accounts companyUserId
  .orThrow (.notFound "حسابی با این واسط ندارید.") (all.2.find? fun a => a.userId = brokerUserId)

/-- `detail`. -/
def detail (companyUserId brokerUserId : ℕ) :
    Ledger (BrokerAccount × List TripLine × List BrokerSettlement) := do
  let commissionPercent ← trip TripService.getPolicy
  let account ← accountWith companyUserId brokerUserId
  let trips ← issue (.trips companyUserId brokerUserId commissionPercent)
  let settlements ← issue (.findSettlements companyUserId brokerUserId)
  pure (account, trips, settlements)

/-- `/^[1-9][0-9]{0,17}$/`. -/
def amountOk (amount : String) : Bool :=
  match amount.toList with
  | c :: cs => c.isDigit && c ≠ '0' && decide (cs.length ≤ 17) && cs.all Char.isDigit
  | [] => false

/-- `note?.trim() || null`. -/
def trimmedNote (note : Option String) : Option String :=
  note.bind fun text =>
    let trimmed := ((text.toList.dropWhile isJsSpace).reverse.dropWhile isJsSpace).reverse
    if trimmed = [] then none else some (String.ofList trimmed)

/-- The payment `settle` creates. -/
def newPayment (companyUserId brokerUserId : ℕ) (amount : String) (note : Option String)
    (byUserId : ℕ) : BrokerSettlement where
  id := 0
  companyUserId := companyUserId
  brokerUserId := brokerUserId
  amount := TripService.digitsValue amount.toList
  note := trimmedNote note
  createdByUserId := some byUserId
  createdAt := 0

/-- `settle`: a payment to the broker, up to what is left. -/
def settle (companyUserId brokerUserId : ℕ) (amount : String) (note : Option String)
    (byUserId : ℕ) : Ledger (BrokerAccount × List TripLine × List BrokerSettlement) := do
  .refuseIf (amountOk amount = false) (.badRequest "مبلغ تسویه را با عدد درست وارد کنید.")
  let account ← accountWith companyUserId brokerUserId
  .refuseIf (account.remaining < (TripService.digitsValue amount.toList : ℤ))
    (.badRequest "مبلغ تسویه از مانده‌ی طلب واسط بیشتر است.")
  issue (.saveSettlement (newPayment companyUserId brokerUserId amount note byUserId))
  detail companyUserId brokerUserId

/-- `removeSettlement`. -/
def removeSettlement (companyUserId settlementId : ℕ) :
    Ledger (BrokerAccount × List TripLine × List BrokerSettlement) := do
  let found ← issue (.findSettlement companyUserId settlementId)
  let settlement ← .orThrow (.notFound "این تسویه پیدا نشد.") found
  issue (.deleteSettlement settlementId)
  detail companyUserId settlement.brokerUserId

end TransportBackend.BrokerLedger
