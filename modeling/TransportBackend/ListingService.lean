import TransportBackend.TripStore

/-!
# The listing service

`CargoListingService`: the paths that write a `CargoListing` row.  `setStatus` goes through the
conditional update `changeStatus`; `announceNow`, `autoAnnounce` and `refreshPublisherContact` save
the whole row they had loaded.

What the service asks of other subsystems is an argument here: whether a load has recipients
(`announcementRecipients` throws `NoCargoRecipientsException` when there are none), the company's
fresh suggestions, the publisher's contact.  The drivers' copies of a load (`propagateStatus`,
`propagateText`, `sendToDrivers`) are written to other tables and are left out.
-/

namespace TransportBackend.ListingService

open TransportBackend.AtomicProgram
open TransportBackend.TripStore

/-! ### The publisher's contact -/

/-- The company of a `PublisherContact`. -/
structure ContactCompany where
  name : String
  phone : Option String
  domesticName : Option String
  internationalName : Option String
  deriving DecidableEq, Repr

/-- `PublisherContact`. -/
structure PublisherContact where
  mobiles : List String
  company : Option ContactCompany
  deriving DecidableEq, Repr

/-- A string that counts as one: not empty once trimmed. -/
def given (text : String) : Bool := text.toList.any (!TripFareRules.isJsSpace ·)

/-- `[...new Set(xs)]`: first occurrences, in order. -/
def distinct : List String → List String
  | [] => []
  | x :: xs => x :: (distinct xs).filter (· ≠ x)

/-- The phones a load gets from the publisher's profile when none are typed for it. -/
def publisherPhones (contact : PublisherContact) : List String :=
  let office := (contact.company.bind ContactCompany.phone).toList
  distinct ((contact.mobiles ++ office).filter given)

/-- `driverKindForLoad(tripType) === 'INTERNATIONAL'`. -/
def isInternational : CargoTripType → Bool
  | .domestic => false
  | .exportLoad => true
  | .importLoad => true

/-- `a || b` on strings: an empty one counts as missing. -/
def orElseName (a b : Option String) : Option String :=
  match a.filter (· ≠ "") with
  | some name => some name
  | none => b.filter (· ≠ "")

/-- The company name a load of this kind shows. -/
def companyNameFor (contact : PublisherContact) (tripType : CargoTripType) : Option String :=
  contact.company.bind fun company =>
    orElseName (if isInternational tripType then company.internationalName
      else company.domesticName) (some company.name)

/-- `push` of `replaceContactPhones`: at the end, unless it is there. -/
def pushPhone (next : List String) (phone : String) : List String :=
  if phone ∈ next then next else next ++ [phone]

/-- The loop over a load that carried only some of the old profile phones; `added` is used up from
its front. -/
def swapPhones (old new : List String) : List String → List String → List String → List String
  | _, next, [] => next
  | added, next, phone :: phones =>
      if phone ∉ old ∨ phone ∈ new then swapPhones old new added (pushPhone next phone) phones
      else
        match added with
        | [] => swapPhones old new [] next phones
        | a :: as => swapPhones old new as (pushPhone next a) phones

/-- A load's phones after the profile phones changed from `old` to `new`; `none` when the same array
is handed back. -/
def replaceContactPhones (phones old new : List String) : Option (List String) :=
  if ¬phones.any (· ∈ old) then none
  else
    let next :=
      if old.all (· ∈ phones) then
        let swapped := phones.foldl
          (fun next phone => (if phone ∈ old then new else [phone]).foldl pushPhone next) []
        new.foldl pushPhone swapped
      else swapPhones old new (new.filter (· ∉ old)) [] phones
    if next.isEmpty then none else some next

/-! ### Status -/

def listingNotFound : ServiceError := .notFound "Cargo listing not found."

/-- `setStatus`: a load whose trip runs, or that was delivered, is not opened again.  `trip` names
the request whose trip this call completes, when `completeAssignment` makes it. -/
def setStatus (trip : Option ℕ) (userId listingId : ℕ) (status : CargoListingStatus) :
    Trip Unit := do
  let found ← issue (.findOneForPublisher listingId userId)
  let listing ← .orThrow listingNotFound found
  runIf (status = .opened) do
    let now ← dateNow
    let active ← issue (.hasActiveTrip listing.id now)
    .refuseIf active (.conflict "activeTrip")
  runIf (status = .opened) do
    let delivered ← issue (.hasDelivered listing.id)
    .refuseIf delivered (.conflict "delivered")
  let now ← dateNow
  let changed ← issue (.changeStatus trip listing.id status now)
  runIf changed do
    let updated ← issue (.findOneForPublisher listingId userId)
    let _ ← .orThrow listingNotFound updated
    pure ()

/-! ### Announcements -/

/-- A loaded row saved with its announcement time. -/
def saveAnnounced (listing : CargoListing) : Trip Unit := do
  let now ← dateNow
  let _ ← issue (.saveListing listing { listing with announcedAt := some now })
  pure ()

/-- `announceNow`; `recipients` says whether any driver is to get the load. -/
def announceNow (recipients : Bool) (userId listingId : ℕ) : Trip Unit := do
  let found ← issue (.findOneForPublisher listingId userId)
  let listing ← .orThrow listingNotFound found
  .refuseIf (listing.status ≠ .opened) (.conflict "Only open cargo can be announced.")
  .refuseIf (recipients = false) .noCargoRecipients
  saveAnnounced listing

/-- A fresh suggestion of a channel, with what drafting and publishing it answer. -/
structure Suggestion where
  sourceMessageId : String
  complete : Bool
  tripType : CargoTripType
  companyName : Option String
  contactPhones : List String
  recipients : Bool
  deriving DecidableEq, Repr

/-- `publishListing` of a suggestion: a new open row, announced when it has recipients. -/
def publishListing (userId : ℕ) (suggestion : Suggestion) : Trip Unit := do
  let now ← dateNow
  let saved ← issue (.insertListing
    { id := 0
      sourceMessageId := suggestion.sourceMessageId
      publisherUserId := userId
      companyName := suggestion.companyName
      contactPhones := suggestion.contactPhones
      tripType := suggestion.tripType
      status := .opened
      takenAt := none
      announcedAt := if suggestion.recipients then some now else none })
  let _ ← .orThrow (.conflict "You have already published this cargo.") saved
  pure ()

/-- `publish`: a load published before and still waiting is announced, any other is refused. -/
def publish (userId : ℕ) (suggestion : Suggestion) : Trip Unit := do
  let existing ← issue (.findBySourceAndPublisher suggestion.sourceMessageId userId)
  match existing with
  | none => publishListing userId suggestion
  | some listing =>
      if listing.announcedAt = none ∧ listing.status = .opened then
        announceNow suggestion.recipients userId listing.id
      else .throw (.conflict "You have already published this cargo.")

/-- The errors `autoAnnounce` swallows: a conflict, or a load without recipients. -/
def swallowed : ServiceError → Bool
  | .conflict _ => true
  | .noCargoRecipients => true
  | _ => false

/-- One suggestion of an automatic turn. -/
def announceSuggestion (userId : ℕ) (suggestion : Suggestion) : Trip Unit := do
  let existing ← issue (.findBySourceAndPublisher suggestion.sourceMessageId userId)
  runIf (existing.isNone && suggestion.complete) do
    let outcome ← (publish userId suggestion).attempt
    match outcome with
    | .ok _ => pure ()
    | .error e => .refuseIf (¬swallowed e) e

/-- `autoAnnounce`: the fresh suggestions, then the loads in the queue.  The queue is read once;
each of its rows is saved as it was read. -/
def autoAnnounce (recipients : CargoListing → Bool) (suggestions : List Suggestion) (userId : ℕ) :
    Trip Unit := do
  .forEach (announceSuggestion userId) suggestions
  let queue ← issue (.findPendingAnnounce userId)
  .forEach (fun listing => runIf (recipients listing) (saveAnnounced listing)) queue

/-! ### Contact changes -/

def loadTypes : List CargoTripType := [.domestic, .exportLoad, .importLoad]

/-- The row of a load still showing the old contact, with the new one; `none` when nothing changes. -/
def refreshed (before after : PublisherContact) (listing : CargoListing) : Option CargoListing :=
  let phones := replaceContactPhones listing.contactPhones (publisherPhones before)
    (publisherPhones after)
  let companyName :=
    if listing.companyName.any (· ≠ "") ∧
        listing.companyName = companyNameFor before listing.tripType then
      companyNameFor after listing.tripType
    else listing.companyName
  if companyName = listing.companyName ∧ phones = none then none
  else some { listing with contactPhones := phones.getD listing.contactPhones, companyName }

/-- `refreshPublisherContact`: every load still showing the old contact, read once, saved in
turn. -/
def refreshPublisherContact (userId : ℕ) (before after : PublisherContact) : Trip Unit := do
  let fromPhones := publisherPhones before
  let toPhones := publisherPhones after
  let samePhones := fromPhones.length = toPhones.length ∧ fromPhones.all (· ∈ toPhones)
  let renamed := loadTypes.filter fun t => companyNameFor before t ≠ companyNameFor after t
  let oldNames := distinct (renamed.filterMap (companyNameFor before))
  runIf (¬(samePhones ∧ renamed = [])) do
    let phones := if samePhones then [] else fromPhones
    let loads ← issue (.findByPublisherContact userId phones oldNames)
    .forEach (fun listing =>
      match refreshed before after listing with
      | none => pure ()
      | some listing' => do
          let _ ← issue (.saveListing listing listing')
          pure ()) loads

end TransportBackend.ListingService
