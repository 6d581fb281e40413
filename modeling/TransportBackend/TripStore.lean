import TransportBackend.AtomicProgram
import TransportBackend.KeyedTable
import TransportBackend.TripFareRules

/-!
# Loads, requests and fares: the tables and the queries on them

The rows `CargoListing`, `CargoRequest` and `TripFare`, and every repository read and write the
trip and listing services issue, each one atomic command (`TripCmd`) with its effect (`exec`).

TypeORM's `save(entity)` writes every column whose value in memory differs from the row as it is
re-read at the save, so the row ends equal to the entity, whatever it held in between.  A save
therefore carries the entity and, for the record only, the row as the call had **read** it: `exec`
never looks at `read`, the conditions under which stale saves are harmless do.  Two unique indexes
refuse a save: one request for each load and driver, one trip for each load
(`UQ_CargoRequest_listing_trip`).

Rows other subsystems own (users, profiles, links, the drivers' notices) are not here: the services
get what they ask of them as arguments.
-/

namespace TransportBackend.TripStore

open TransportBackend.AtomicProgram
open TransportBackend.KeyedTable
open TransportBackend.Binary64
open TransportBackend.TripFareRules

/-! ### Rows -/

/-- `CargoListingStatus`. -/
inductive CargoListingStatus where
  | opened
  | taken
  deriving DecidableEq, Repr

/-- `CargoRequestStatus`. -/
inductive CargoRequestStatus where
  | pending
  | offered
  | accepted
  | rejected
  | declined
  | expired
  | cancelled
  | delivered
  | tripCancelled
  deriving DecidableEq, Repr

/-- `CargoTripType`. -/
inductive CargoTripType where
  | domestic
  | exportLoad
  | importLoad
  deriving DecidableEq, Repr

/-- `UsageChannel`: where a request was made. -/
inductive UsageChannel where
  | pwa | web | bale | eitaa | rubika | telegram | whatsapp | agent | push | sms
  deriving DecidableEq, Repr

/-- `BrokerDriver`: the driver a broker asks a load for, as the broker gave it. -/
structure BrokerDriver where
  name : String
  nationalCode : String
  mobile : String
  plate : String
  transitPlate : Option String
  companyName : Option String
  fare : Option String
  exitBorder : Option String
  referrer : Option String
  deriving DecidableEq, Repr

/-- A row of `CargoListing`.  Its descriptive columns (route, weight, price, text) are left out:
nothing here reads them. -/
structure CargoListing where
  id : ℕ
  sourceMessageId : String
  publisherUserId : ℕ
  companyName : Option String
  contactPhones : List String
  tripType : CargoTripType
  status : CargoListingStatus
  takenAt : Option ℕ
  announcedAt : Option ℕ
  deriving DecidableEq, Repr

/-- A row of `CargoRequest`; times are milliseconds, percents hundredths. -/
structure CargoRequest where
  id : ℕ
  listingId : ℕ
  driverUserId : ℕ
  companyUserId : ℕ
  status : CargoRequestStatus
  decidedAt : Option ℕ
  offerExpiresAt : Option ℕ
  deliveredAt : Option ℕ
  deliveryReportedAt : Option ℕ
  deliveryRemindedAt : Option ℕ
  source : Option UsageChannel
  forDriver : Option BrokerDriver
  exitBorder : Option String
  brokerPayModel : Option BrokerPayModel
  brokerCommission : Option ℤ
  brokerCommissionPercent : Option ℕ
  brokerMargin : Option ℤ
  updatedAt : ℕ
  deriving DecidableEq, Repr

/-- The columns of a row `repository.create` makes: everything not given is null. -/
def CargoRequest.create (listingId driverUserId companyUserId : ℕ) : CargoRequest where
  id := 0
  listingId := listingId
  driverUserId := driverUserId
  companyUserId := companyUserId
  status := .pending
  decidedAt := none
  offerExpiresAt := none
  deliveredAt := none
  deliveryReportedAt := none
  deliveryRemindedAt := none
  source := none
  forDriver := none
  exitBorder := none
  brokerPayModel := none
  brokerCommission := none
  brokerCommissionPercent := none
  brokerMargin := none
  updatedAt := 0

namespace CargoRequest

/-- The load is on this request's trip: `status IN ('ACCEPTED', 'DELIVERED')`. -/
def onTrip (r : CargoRequest) : Bool := r.status = .accepted || r.status = .delivered

/-- An offer the driver may still accept at `now`. -/
def activeOffer (now : ℕ) (r : CargoRequest) : Bool :=
  r.status = .offered && r.offerExpiresAt.any (now ≤ ·)

/-- An offer past its time at `now`. -/
def expiredOffer (now : ℕ) (r : CargoRequest) : Bool :=
  r.status = .offered && r.offerExpiresAt.any (· < now)

/-- `COALESCE(deliveryRemindedAt, decidedAt, updatedAt)`. -/
def remindFrom (r : CargoRequest) : ℕ := (r.deliveryRemindedAt.or r.decidedAt).getD r.updatedAt

/-- The entity as its row is after an insert. -/
def inserted (id now : ℕ) (e : CargoRequest) : CargoRequest := { e with id := id, updatedAt := now }

/-- The entity as its row is after a save: `updatedAt` moves when another column changed. -/
def stamped (e : CargoRequest) (stored : Option CargoRequest) (now : ℕ) : CargoRequest :=
  let unchanged := stored.map ({ · with updatedAt := 0 }) = some { e with updatedAt := 0 }
  { e with updatedAt := if unchanged then (stored.map updatedAt).getD now else now }

end CargoRequest

/-! ### The columns each method assigns -/

/-- `OFFER_TTL_MINUTES`, in milliseconds. -/
def offerTtlMs : ℕ := 30 * 60000

namespace CargoRequest

/-- In `request`. -/
def asked (source : Option UsageChannel) (driverFor : Option BrokerDriver)
    (border : Option String) (r : CargoRequest) : CargoRequest :=
  { r with
    status := .pending
    decidedAt := none
    source := source
    forDriver := driverFor
    exitBorder := border }

/-- In `cancel`. -/
def withdrawn (r : CargoRequest) : CargoRequest := { r with status := .cancelled }

/-- In `decide`. -/
def decided (accept : Bool) (payModel : Option BrokerPayModel) (now : ℕ) (r : CargoRequest) :
    CargoRequest :=
  { r with
    brokerPayModel := payModel
    status := if accept then .accepted else .rejected
    decidedAt := some now }

/-- In `completeAssignment`, of the other requests. -/
def turnedDown (now : ℕ) (r : CargoRequest) : CargoRequest :=
  { r with status := .rejected, decidedAt := some now }

/-- In `offer`. -/
def handed (now : ℕ) (r : CargoRequest) : CargoRequest :=
  { r with
    status := .offered
    decidedAt := some now
    offerExpiresAt := some (now + offerTtlMs) }

/-- In `expire`. -/
def lapsed (r : CargoRequest) : CargoRequest :=
  { r with status := .expired, offerExpiresAt := none }

/-- In `respondOffer`. -/
def answered (accept : Bool) (now : ℕ) (r : CargoRequest) : CargoRequest :=
  { r with
    status := if accept then .accepted else .declined
    decidedAt := some now
    offerExpiresAt := none }

/-- In `remindDeliveries`. -/
def reminded (now : ℕ) (r : CargoRequest) : CargoRequest :=
  { r with deliveryRemindedAt := some now }

/-- In `deliver`, by the driver. -/
def reported (now : ℕ) (r : CargoRequest) : CargoRequest :=
  { r with deliveryReportedAt := some now }

/-- In `deliver`, by the company. -/
def confirmed (now : ℕ) (r : CargoRequest) : CargoRequest :=
  { r with status := .delivered, deliveredAt := some now }

/-- In `cancelTrip`. -/
def calledOff (now : ℕ) (r : CargoRequest) : CargoRequest :=
  { r with
    status := .tripCancelled
    deliveryReportedAt := none
    decidedAt := some now }

/-- In `cancelTrip`, of the requests its trip turned down. -/
def waitingAgain (r : CargoRequest) : CargoRequest :=
  { r with status := .pending, decidedAt := none }

/-- In `rejectDeliveryReport`. -/
def unreported (r : CargoRequest) : CargoRequest := { r with deliveryReportedAt := none }

end CargoRequest

/-! ### The store -/

/-- The keys of the trip messages (`notify.*`) sent to the parties. -/
inductive NoticeKey where
  | newRequest | newBrokerRequest | requestCancelled | brokerRequestCancelled
  | deliveryReminder | confirmReminder | accepted | acceptedBroker | rejected
  | offer | offerAccepted | offerDeclined | offerExpiredCompany | offerExpiredDriver
  | deliveryReported | deliveryReportedBroker | deliveryConfirmed | deliveredByCompany
  | tripCancelled | deliveryRejected
  deriving DecidableEq, Repr

/-- A notice `CargoTripService.notify` sent, with the time it was sent at. -/
structure Notice where
  userId : ℕ
  key : NoticeKey
  requestId : ℕ
  sentAt : ℕ
  deriving DecidableEq, Repr

/-- The tables the trip operations work on. -/
structure Tables where
  listings : Table CargoListing.id
  requests : Table CargoRequest.id
  fares : Table TripFare.key

/-- The tables, the commission percent of `BrokerAccessPolicy` (its setting and the copy the service
holds until it expires), the clock and the notices sent so far. -/
structure Store extends Tables where
  commissionPercent : ℕ
  cached : Option (ℕ × ℕ)
  clock : ℕ
  outbox : List Notice

/-- The call a save belongs to; a delivery with the fare it confirms. -/
inductive Writer where
  | request
  | cancel
  | decide
  | completeAssignment
  | offer
  | respondOffer
  | expire
  | remindDeliveries
  | reportDelivery
  | deliver (fare : Option TripFareValues)
  | cancelTrip
  | revive
  | rejectDeliveryReport
  deriving DecidableEq, Repr

/-- What a save answers: done, or refused by a unique index (`23505`). -/
inductive SaveResult where
  | saved
  | uniqueViolation
  deriving DecidableEq, Repr

/-- The commands: `new Date()`, the repositories' methods, the policy's cache and `notify`. -/
inductive TripCmd where
  | now
  | findRequest (id : ℕ)
  | findByListingAndDriver (listingId driverUserId : ℕ)
  | findActiveOffer (listingId now : ℕ)
  | findExpiredOffers (now take : ℕ)
  | findOtherPending (listingId exceptId : ℕ)
  | findTakenOver (listingId exceptId since : ℕ)
  | findTripsDueDeliveryReminder (before : ℤ)
  | hasActiveTrip (listingId now : ℕ)
  | hasDelivered (listingId : ℕ)
  | insertRequest (by_ : Writer) (entity : CargoRequest)
  | saveRequest (by_ : Writer) (read entity : CargoRequest)
  | findListing (id : ℕ)
  | findOneForPublisher (id publisherUserId : ℕ)
  | findBySourceAndPublisher (sourceMessageId : String) (publisherUserId : ℕ)
  | findPendingAnnounce (publisherUserId : ℕ)
  | findByPublisherContact (publisherUserId : ℕ) (phones companyNames : List String)
  | insertListing (entity : CargoListing)
  | saveListing (read entity : CargoListing)
  | changeStatus (trip : Option ℕ) (id : ℕ) (status : CargoListingStatus) (now : ℕ)
  | findFare (requestId : ℕ) (stage : TripFareStage)
  | saveFare (isNew : Bool) (row : TripFare)
  | lastPayModel (companyUserId : ℕ)
  | readPolicyCache
  | writePolicyCache (entry : Option (ℕ × ℕ))
  | readSetting
  | saveSetting (commissionPercent : ℕ)
  | notify (userId : ℕ) (key : NoticeKey) (requestId : ℕ)

/-- What each command answers. -/
@[reducible] def Resp : TripCmd → Type
  | .now => ℕ
  | .findRequest _ => Option (CargoRequest × CargoListing)
  | .findByListingAndDriver _ _ => Option CargoRequest
  | .findActiveOffer _ _ => Option CargoRequest
  | .findExpiredOffers _ _ => List CargoRequest
  | .findOtherPending _ _ => List CargoRequest
  | .findTakenOver _ _ _ => List CargoRequest
  | .findTripsDueDeliveryReminder _ => List CargoRequest
  | .hasActiveTrip _ _ => Bool
  | .hasDelivered _ => Bool
  | .insertRequest _ _ => Option CargoRequest
  | .saveRequest _ _ _ => SaveResult
  | .findListing _ => Option CargoListing
  | .findOneForPublisher _ _ => Option CargoListing
  | .findBySourceAndPublisher _ _ => Option CargoListing
  | .findPendingAnnounce _ => List CargoListing
  | .findByPublisherContact _ _ _ => List CargoListing
  | .insertListing _ => Option CargoListing
  | .saveListing _ _ => Unit
  | .changeStatus _ _ _ _ => Bool
  | .findFare _ _ => Option TripFare
  | .saveFare _ _ => SaveResult
  | .lastPayModel _ => Option BrokerPayModel
  | .readPolicyCache => Option (ℕ × ℕ)
  | .writePolicyCache _ => Unit
  | .readSetting => ℕ
  | .saveSetting _ => Unit
  | .notify _ _ _ => Unit

/-! ### Queries -/

namespace Tables

def activeOffers (t : Tables) (listingId now : ℕ) : List CargoRequest :=
  t.requests.rows.filter fun r => r.listingId = listingId && r.activeOffer now

def expiredOffers (t : Tables) (now : ℕ) : List CargoRequest :=
  t.requests.rows.filter fun r => r.expiredOffer now

def otherPending (t : Tables) (listingId exceptId : ℕ) : List CargoRequest :=
  t.requests.rows.filter fun r =>
    r.listingId = listingId && r.status = .pending && r.id ≠ exceptId

def takenOver (t : Tables) (listingId exceptId since : ℕ) : List CargoRequest :=
  t.requests.rows.filter fun r =>
    r.listingId = listingId && r.status = .rejected && r.id ≠ exceptId &&
      r.decidedAt.any (since ≤ ·)

def tripsDue (t : Tables) (before : ℤ) : List CargoRequest :=
  t.requests.rows.filter fun r => r.status = .accepted && r.remindFrom < before

def activeTrip (t : Tables) (listingId now : ℕ) : Bool :=
  t.requests.rows.any fun r =>
    r.listingId = listingId && (r.status = .accepted || r.activeOffer now)

def anyDelivered (t : Tables) (listingId : ℕ) : Bool :=
  t.requests.rows.any fun r => r.listingId = listingId && r.status = .delivered

/-- The partial unique index `UQ_CargoRequest_listing_trip` refuses this row. -/
def tripIndexRefuses (t : Tables) (e : CargoRequest) : Bool :=
  e.onTrip && t.requests.rows.any fun r => r.listingId = e.listingId && r.id ≠ e.id && r.onTrip

/-- The unique index `UQ_CargoRequest_listing_driver` refuses this new row. -/
def driverIndexRefuses (t : Tables) (e : CargoRequest) : Bool :=
  t.requests.rows.any fun r => r.listingId = e.listingId && r.driverUserId = e.driverUserId

/-- The row of a load and a driver. -/
def ofDriver (t : Tables) (listingId driverUserId : ℕ) : Option CargoRequest :=
  t.requests.rows.find? fun r => r.listingId = listingId && r.driverUserId = driverUserId

/-- `ORDER BY "decidedAt" DESC`: null comes first, then the latest. -/
def laterDecided (a b : CargoRequest) : CargoRequest :=
  match a.decidedAt, b.decidedAt with
  | none, _ => a
  | _, none => b
  | some x, some y => if x < y then b else a

/-- How this company paid the broker of its last broker trip. -/
def lastPayModel (t : Tables) (companyUserId : ℕ) : Option BrokerPayModel :=
  match t.requests.rows.filter
      fun r => r.companyUserId = companyUserId && r.brokerPayModel.isSome with
  | [] => none
  | r :: rs => (rs.foldl laterDecided r).brokerPayModel

def putRequest (t : Tables) (r : CargoRequest) : Tables := { t with requests := t.requests.put r }

def putListing (t : Tables) (l : CargoListing) : Tables := { t with listings := t.listings.put l }

def putFare (t : Tables) (f : TripFare) : Tables := { t with fares := t.fares.put f }

/-- `save(entity)` of a request the call had loaded. -/
def saveRequest (t : Tables) (e : CargoRequest) (now : ℕ) : SaveResult × Tables :=
  if t.tripIndexRefuses e then (.uniqueViolation, t)
  else (.saved, t.putRequest (e.stamped (t.requests.get e.id) now))

/-- `save(entity)` of a request just created: it gets its id. -/
def insertRequest (t : Tables) (e : CargoRequest) (now : ℕ) : Option CargoRequest × Tables :=
  let row := e.inserted t.requests.fresh now
  if t.driverIndexRefuses row || t.tripIndexRefuses row then (none, t)
  else (some row, t.putRequest row)

/-- The conditional `UPDATE` of `changeStatus`: whether a row changed. -/
def changeStatus (t : Tables) (id : ℕ) (status : CargoListingStatus) (now : ℕ) : Bool × Tables :=
  match t.listings.get id with
  | none => (false, t)
  | some l =>
      if l.status = status then (false, t)
      else
        (true, t.putListing
          { l with status := status, takenAt := if status = .taken then some now else none })

/-- `save(listing)` of a listing just created: refused when its source is published already. -/
def insertListing (t : Tables) (e : CargoListing) : Option CargoListing × Tables :=
  let row := { e with id := t.listings.fresh }
  if t.listings.rows.any fun l =>
      l.sourceMessageId = row.sourceMessageId && l.publisherUserId = row.publisherUserId
  then (none, t)
  else (some row, t.putListing row)

/-- `save(row)` of a fare: a new row is refused when its stage is recorded already. -/
def saveFare (t : Tables) (isNew : Bool) (row : TripFare) : SaveResult × Tables :=
  if isNew && (t.fares.get row.key).isSome then (.uniqueViolation, t)
  else (.saved, t.putFare row)

end Tables

/-- The store with other tables. -/
def Store.setTables (s : Store) (t : Tables) : Store := { s with toTables := t }

/-- The effect of each command. -/
def exec : (c : TripCmd) → Store → Resp c × Store
  | .now, s => (s.clock, s)
  | .findRequest id, s =>
      ((s.requests.get id).bind fun r => (s.listings.get r.listingId).map fun l => (r, l), s)
  | .findByListingAndDriver l d, s => (s.ofDriver l d, s)
  | .findActiveOffer l now, s => ((s.activeOffers l now).head?, s)
  | .findExpiredOffers now take, s => ((s.expiredOffers now).take take, s)
  | .findOtherPending l e, s => (s.otherPending l e, s)
  | .findTakenOver l e since, s => (s.takenOver l e since, s)
  | .findTripsDueDeliveryReminder before, s => (s.tripsDue before, s)
  | .hasActiveTrip l now, s => (s.activeTrip l now, s)
  | .hasDelivered l, s => (s.anyDelivered l, s)
  | .insertRequest _ e, s =>
      ((s.insertRequest e s.clock).1, s.setTables (s.insertRequest e s.clock).2)
  | .saveRequest _ _ e, s => ((s.saveRequest e s.clock).1, s.setTables (s.saveRequest e s.clock).2)
  | .findListing id, s => (s.listings.get id, s)
  | .findOneForPublisher id user, s =>
      ((s.listings.get id).filter (·.publisherUserId = user), s)
  | .findBySourceAndPublisher source user, s =>
      (s.listings.rows.find? fun l => l.sourceMessageId = source && l.publisherUserId = user, s)
  | .findPendingAnnounce user, s =>
      (s.listings.rows.filter fun l =>
        l.publisherUserId = user && l.announcedAt.isNone && l.status = .opened, s)
  | .findByPublisherContact user phones names, s =>
      (s.listings.rows.filter fun l => l.publisherUserId = user &&
        (l.contactPhones.any (· ∈ phones) || l.companyName.any (· ∈ names)), s)
  | .insertListing e, s => ((s.insertListing e).1, s.setTables (s.insertListing e).2)
  | .saveListing _ e, s => ((), s.setTables (s.putListing e))
  | .changeStatus _ id status now, s =>
      ((s.changeStatus id status now).1, s.setTables (s.changeStatus id status now).2)
  | .findFare id stage, s => (s.fares.get (id, stage), s)
  | .saveFare isNew row, s => ((s.saveFare isNew row).1, s.setTables (s.saveFare isNew row).2)
  | .lastPayModel company, s => (s.lastPayModel company, s)
  | .readPolicyCache, s => (s.cached, s)
  | .writePolicyCache entry, s => ((), { s with cached := entry })
  | .readSetting, s => (s.commissionPercent, s)
  | .saveSetting percent, s => ((), { s with commissionPercent := percent })
  | .notify userId key requestId, s =>
      ((), { s with outbox := ⟨userId, key, requestId, s.clock⟩ :: s.outbox })

/-! ### The services' monad -/

/-- What a service method throws. -/
inductive ServiceError where
  | notFound (message : String)
  | conflict (code : String)
  | badRequest (message : String)
  | noCargoRecipients
  | queryFailed
  deriving DecidableEq, Repr

/-- A method of the trip and listing services. -/
abbrev Trip (α : Type) : Type := Prog Resp ServiceError α

/-- One repository call, awaited. -/
def issue (c : TripCmd) : Trip (Resp c) := Prog.perform c

/-- `new Date()`. -/
def dateNow : Trip ℕ := issue .now

/-- A step of a method taken under a condition. -/
def runIf (b : Bool) (p : Trip Unit) : Trip Unit := if b then p else .ret ()

end TransportBackend.TripStore
