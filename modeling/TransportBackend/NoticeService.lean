import TransportBackend.NoticeStore

/-!
# Delivering drivers' notices

The methods of `CargoNotificationService`, `CargoDeliveryQueue`, `CargoDeliveryRetryWorker` and
`CargoListingService` that deliver a driver's notice, each a program over the commands of
`NoticeStore`.  Two policies work on the same columns:

* `deliverThroughOne` — the direct and the retry path goes through the messengers in order and, once
  one has the notice **or waits to try again**, skips the rest;
* `deliverQueued` — a queued job tries one messenger, waits in the queue to try it again, and hands
  the notice on to the next pending messenger only when this one cannot take it.

Both read a notice, send, and then write what became of it.
-/

namespace TransportBackend.NoticeService

open TransportBackend.AtomicProgram
open TransportBackend.NoticeStore
open TransportBackend.TripStore (CargoListing CargoListingStatus)

/-! ### When to try again -/

/-- `MAX_DELIVERY_ATTEMPTS`. -/
def maxDeliveryAttempts : ℕ := 5

/-- `DELIVERY_RETRY_WINDOW_MS`. -/
def deliveryRetryWindowMs : ℕ := 3 * 60 * 60 * 1000

/-- `BASE_RETRY_DELAY_MS`. -/
def baseRetryDelayMs : ℕ := 60 * 1000

/-- `nextDeliveryRetryAt`; the failed attempt is counted in `attempts`. -/
def nextDeliveryRetryAt (attempts createdAt now : ℕ) : Option ℕ :=
  if maxDeliveryAttempts ≤ attempts then none
  else
    let next := now + baseRetryDelayMs * 2 ^ (attempts - 1)
    if next ≤ createdAt + deliveryRetryWindowMs then some next else none

/-- `isPermanentTelegramError`. -/
def isPermanentTelegramError (e : Fault) : Bool := e.code = some 400 ∨ e.code = some 403

/-- `rateLimitWaitMs`. -/
def rateLimitWaitMs (e : Fault) : Option ℕ :=
  if e.code = some 429 then some (max 1 (e.retryAfter.getD 5) * 1000) else none

/-! ### Programs -/

/-- A program over the store of the notices. -/
abbrev Delivery (α : Type) : Type := Prog Resp Fault α

/-- One command: its value, or what it throws. -/
def issue (c : Cmd) : Delivery (Answer c) :=
  Prog.perform c >>= fun r => match r with
    | .ok a => .ret a
    | .error e => .throw e

def dateNow : Delivery ℕ := issue .dateNow

def updateDelivery (id : ℕ) (m : Messenger) (changes : CargoNotificationDelivery) : Delivery Unit :=
  issue (.updateDelivery id m changes)

/-- A step taken only when the condition holds. -/
def runIf (b : Bool) (p : Delivery Unit) : Delivery Unit := if b then p else .ret ()

/-- The messenger is not to be used for this notice any more. -/
def settledAs (status : NotificationDeliveryStatus) : CargoNotificationDelivery :=
  { status := some status, nextRetryAt := some none }

/-- `DeliveryResult`. -/
structure DeliveryResult where
  status : NotificationDeliveryStatus
  retryAt : Option ℕ := none
  pauseMs : Option ℕ := none

/-- `QueuedOutcome`. -/
inductive QueuedOutcome where
  | done
  | retry (time : ℕ) (pauseMs : Option ℕ)
  | next (messenger : Messenger)
  | digest (userId time : ℕ) (pauseMs : Option ℕ)
  | jobs (jobs : List DeliveryJob)

/-- `canDeliverListing`. -/
def canDeliverListing (row : LoadedNotice) : Delivery Bool :=
  match row.listing with
  | none => pure true
  | some listing =>
      if listing.status = .taken then pure false
      else issue (.canReceiveAnnouncement row.userId listing.publisherUserId listing.tripType)

/-! ### One messenger -/

/-- The user's chat; a load that is not open is not looked up for. -/
def linkOf (row : LoadedNotice) (m : Messenger) (isOpen : Bool) : Delivery (Option ℕ) :=
  if isOpen then issue (.findLink row.userId m) else pure none

/-- A messenger that is not linked. -/
def skipDelivery (row : LoadedNotice) (m : Messenger) : Delivery DeliveryResult := do
  updateDelivery row.id m (settledAs .skipped)
  pure { status := .skipped }

/-- A failed send: tried again at `retryAt`, or given up. -/
def deliveryFailed (row : LoadedNotice) (m : Messenger) (attempts : ℕ) (retryAt : Option ℕ) :
    Delivery DeliveryResult := do
  let status := if retryAt.isSome then .pending else .failed
  updateDelivery row.id m
    { status := some status, attempts := some attempts, nextRetryAt := some retryAt }
  pure { status := status, retryAt := retryAt }

/-- The sends of `deliverBot`: the load's picture the first time, then its message. -/
def sendBot (row : LoadedNotice) (m : Messenger) (chat : ℕ) : Delivery Unit := do
  runIf ((row.columns m).attempts = 0) (issue (.sendListingImage row.id m))
  let _ ← issue (.outOfRequests row.userId)
  let messageId ← issue (.send m chat [row.id])
  updateDelivery row.id m
    { settledAs .sent with
      message := some ⟨chat, messageId⟩
      attempts := some ((row.columns m).attempts + 1) }

/-- What `deliverBot` does with an error: a wait the messenger asked for counts no attempt. -/
def botFailed (row : LoadedNotice) (m : Messenger) (e : Fault) : Delivery DeliveryResult := do
  let now ← dateNow
  match rateLimitWaitMs e with
  | some wait => do
      updateDelivery row.id m { nextRetryAt := some (some (now + wait)) }
      pure { status := .pending, retryAt := some (now + wait), pauseMs := some wait }
  | none =>
      let attempts := (row.columns m).attempts + 1
      deliveryFailed row m attempts
        (if isPermanentTelegramError e then none
          else nextDeliveryRetryAt attempts row.createdAt now)

/-- `deliverBot`: Telegram, Bale, Rubika or Eitaa. -/
def deliverBot (m : Messenger) (row : LoadedNotice) (isOpen : Bool) : Delivery DeliveryResult := do
  if row.status m ≠ .pending then
    pure { status := row.status m }
  else
    match ← linkOf row m isOpen with
    | none => skipDelivery row m
    | some chat =>
        match ← (sendBot row m chat).attempt with
        | .ok _ => do
            issue (.sendListingVoice row.id m)
            pure { status := .sent }
        | .error e => botFailed row m e

/-- The sends of `deliverWhatsapp`. -/
def sendWhatsapp (row : LoadedNotice) (jid : ℕ) : Delivery Unit := do
  runIf ((row.columns .whatsapp).attempts = 0) (issue (.sendListingImage row.id .whatsapp))
  let key ← issue (.send .whatsapp jid [row.id])
  let now ← dateNow
  updateDelivery row.id .whatsapp
    { settledAs .sent with
      message := some ⟨jid, key⟩
      sentAt := some now
      attempts := some ((row.columns .whatsapp).attempts + 1) }
  issue (.sendListingVoice row.id .whatsapp)

/-- `deliverWhatsapp`: every error is taken for a passing one. -/
def deliverWhatsapp (row : LoadedNotice) (isOpen : Bool) : Delivery DeliveryResult := do
  if row.status .whatsapp ≠ .pending then
    pure { status := row.status .whatsapp }
  else
    match ← linkOf row .whatsapp isOpen with
    | none => skipDelivery row .whatsapp
    | some jid =>
        match ← (sendWhatsapp row jid).attempt with
        | .ok _ => pure { status := .sent }
        | .error _ => do
            let now ← dateNow
            let attempts := (row.columns .whatsapp).attempts + 1
            deliveryFailed row .whatsapp attempts (nextDeliveryRetryAt attempts row.createdAt now)

/-- `messenger === 'whatsapp' ? deliverWhatsapp(…) : deliverBot(…)`. -/
def deliverVia (m : Messenger) (row : LoadedNotice) (isOpen : Bool) : Delivery DeliveryResult :=
  if m = .whatsapp then deliverWhatsapp row isOpen else deliverBot m row isOpen

/-! ### Through one messenger -/

/-- The loop of `deliverThroughOne`; `taken`: one messenger has the notice. -/
def deliverThrough (row : LoadedNotice) (isOpen : Bool) (ready : Messenger → Bool) :
    Bool → List Messenger → Delivery Unit
  | _, [] => pure ()
  | true, m :: rest => do
      runIf (row.status m = .pending) (updateDelivery row.id m (settledAs .skipped))
      deliverThrough row isOpen ready true rest
  | false, m :: rest =>
      if row.status m ≠ .pending then
        deliverThrough row isOpen ready (row.status m = .sent) rest
      else if ready m = false then
        deliverThrough row isOpen ready true rest
      else do
        let result ← deliverVia m row isOpen
        deliverThrough row isOpen ready (result.status = .sent ∨ result.status = .pending) rest

/-- `deliverThroughOne`. -/
def deliverThroughOne (row : LoadedNotice) (isOpen : Bool) (ready : Messenger → Bool) :
    Delivery Unit :=
  deliverThrough row isOpen ready row.sentSomewhere messengerOrder

/-- `deliver`, for a driver's notice. -/
def deliver (row : LoadedNotice) : Delivery Unit := do
  deliverThroughOne row (← canDeliverListing row) (fun _ => true)

/-- The messenger's time has come; one never tried yet has no time: its turn is now. -/
def isDue (row : LoadedNotice) (now : ℕ) (m : Messenger) : Bool :=
  (row.columns m).nextRetryAt.all (· ≤ now)

/-- `retryDelivery`, for a driver's notice. -/
def retryDelivery (row : LoadedNotice) (now : ℕ) : Delivery Unit := do
  deliverThroughOne row (← canDeliverListing row) (isDue row now)

/-! ### The retry worker -/

/-- `failExpiredPending`. -/
def failExpiredPending (createdBefore : ℕ) : Delivery Unit :=
  .forEach (fun m => issue (.failExpired m createdBefore))
    [.telegram, .bale, .rubika, .eitaa, .whatsapp]

/-- The body of `tick`: the rows are read once, at the start of the sweep. -/
def sweep : Delivery Unit := do
  let now ← dateNow
  let windowStart := now - deliveryRetryWindowMs
  failExpiredPending windowStart
  let due ← issue (.findDueRetries now windowStart 50)
  .forEach (fun row => retryDelivery row now) due

/-- `tick`: overlapping sweeps are skipped, an error ends the sweep. -/
def tick : Delivery Unit := do
  let started : Bool ← issue .startSweep
  if started then do
    let _ ← sweep.attempt
    issue .endSweep
  else pure ()

/-! ### The delivery queue -/

/-- `DIGEST_KEEP_SECONDS`. -/
def digestKeepSeconds : ℕ := 6 * 60 * 60

/-- `DIGEST_TEMPORARY_RETRY_MS`. -/
def digestTemporaryRetryMs : ℕ := 60 * 1000

/-- The load is held for the driver's summary, or (null) goes alone and opens the driver's window. -/
def hold (window : ℕ) (row : LoadedNotice) (m : Messenger) : Delivery (Option QueuedOutcome) := do
  let alone : Bool ← issue (.setIfAbsent (.cargoDigestWindow m row.userId) window)
  if alone then pure none
  else do
    issue (.hashSet (.cargoDigestPending m row.userId) row.id)
    issue (.expire (.cargoDigestPending m row.userId) digestKeepSeconds)
    let first : Bool ←
      issue (.setIfAbsent (.cargoDigestScheduled m row.userId) digestKeepSeconds)
    if first then do
      let left : ℤ ← issue (.ttl (.cargoDigestWindow m row.userId))
      let now ← dateNow
      pure (some (.digest row.userId (now + (max 1 left).toNat * 1000) none))
    else pure (some .done)

/-- `holdForDigest`; a window of 0 seconds holds nothing, and a Redis failure sends it now. -/
def holdForDigest (window : ℕ) (row : LoadedNotice) (m : Messenger) :
    Delivery (Option QueuedOutcome) := do
  if window = 0 then pure none
  else
    match ← (hold window row m).attempt with
    | .ok held => pure held
    | .error _ => pure none

/-- The messengers after this one. -/
def laterThan (m : Messenger) : List Messenger := (messengerOrder.dropWhile (· ≠ m)).tail

/-- The next messenger still pending. -/
def nextPending (row : LoadedNotice) (m : Messenger) : Option Messenger :=
  (laterThan m).find? fun other => row.status other = .pending

/-- The messengers a sent notice is not sent through any more. -/
def othersPending (row : LoadedNotice) (m : Messenger) : List Messenger :=
  messengerOrder.filter fun other => other ≠ m ∧ row.status other = .pending

/-- The rest stay unsent, for good. -/
def skipOthers (row : LoadedNotice) (m : Messenger) : Delivery Unit :=
  .forEach (fun other => updateDelivery row.id other (settledAs .skipped)) (othersPending row m)

/-- The notice is too old to be sent. -/
def isStale (row : LoadedNotice) (now : ℕ) : Bool := deliveryRetryWindowMs < now - row.createdAt

/-- What a queued send does after its messenger answered. -/
def afterQueued (row : LoadedNotice) (m : Messenger) (isOpen : Bool) (result : DeliveryResult) :
    Delivery QueuedOutcome :=
  match result.status, result.retryAt with
  | .pending, some time => pure (.retry time result.pauseMs)
  | .sent, _ => do
      skipOthers row m
      pure .done
  | _, _ =>
      if isOpen = false then pure .done
      else pure (match nextPending row m with
        | some other => .next other
        | none => .done)

/-- `deliverQueued`. -/
def deliverQueued (window id : ℕ) (m : Messenger) : Delivery QueuedOutcome := do
  let now ← dateNow
  match ← issue (.findWithListing .deliver id) with
  | none => pure .done
  | some row =>
      if row.status m ≠ .pending then pure .done
      else if row.sentSomewhere ∨ isStale row now then do
        updateDelivery row.id m (settledAs (if row.sentSomewhere then .skipped else .failed))
        pure .done
      else do
        match ← holdForDigest window row m with
        | some held => pure held
        | none => do
            let isOpen ← canDeliverListing row
            let result ← deliverVia m row isOpen
            afterQueued row m isOpen result

/-- The notice is not for a summary any more: sent elsewhere, too old, or its load not open. -/
def isDropped (row : LoadedNotice) (now : ℕ) : Delivery Bool :=
  if row.sentSomewhere ∨ isStale row now then pure true
  else do
    let isOpen ← canDeliverListing row
    pure !isOpen

/-- The held notices a summary is made of: still pending here, sent nowhere, fresh and open. -/
def stillHeld (m : Messenger) (now : ℕ) : List LoadedNotice → Delivery (List LoadedNotice)
  | [] => pure []
  | row :: rest =>
      if row.status m ≠ .pending then stillHeld m now rest
      else do
        let drop ← isDropped row now
        if drop then do
          updateDelivery row.id m (settledAs (if isStale row now then .failed else .skipped))
          stillHeld m now rest
        else do
          let rows ← stillHeld m now rest
          pure (row :: rows)

/-- `handOn`. -/
def handOn (rows : List LoadedNotice) (m : Messenger) (status : NotificationDeliveryStatus) :
    Delivery QueuedOutcome := do
  .forEach (fun row => updateDelivery row.id m (settledAs status)) rows
  let jobs := rows.filterMap fun row =>
    (nextPending row m).map fun other => { id := row.id, messenger := other, kind := .send }
  pure (if jobs = [] then .done else .jobs jobs)

/-- The summary's message and what is written after it; false when the user has not linked the
messenger. -/
def sendDigest (window userId : ℕ) (m : Messenger) (now : ℕ) (rows : List LoadedNotice) :
    Delivery Bool := do
  match ← issue (.findLink userId m) with
  | none => pure false
  | some chat => do
      let messageId ← issue (.send m chat (rows.map (·.id)))
      .forEach (fun row => do
        updateDelivery row.id m
          { settledAs .sent with
            message := some ⟨chat, messageId⟩
            sentAt := if m = .whatsapp then some now else none }
        skipOthers row m) rows
      runIf (window ≠ 0) (issue (.set (.cargoDigestWindow m userId) window))
      pure true

/-- A summary that failed for now: held again, for a summary a little later. -/
def holdAgain (userId : ℕ) (m : Messenger) (now : ℕ) (rows : List LoadedNotice)
    (wait : Option ℕ) : Delivery QueuedOutcome := do
  .forEach (fun row => issue (.hashSet (.cargoDigestPending m userId) row.id)) rows
  issue (.expire (.cargoDigestPending m userId) digestKeepSeconds)
  let _ ← issue (.setIfAbsent (.cargoDigestScheduled m userId) digestKeepSeconds)
  pure (.digest userId (now + wait.getD digestTemporaryRetryMs) wait)

/-- What becomes of a summary's send. -/
def afterDigest (userId : ℕ) (m : Messenger) (now : ℕ) (rows : List LoadedNotice) :
    Except Fault Bool → Delivery QueuedOutcome
  | .ok true => pure .done
  | .ok false => handOn rows m .skipped
  | .error e =>
      if rateLimitWaitMs e = none ∧ m ≠ .whatsapp ∧ isPermanentTelegramError e then
        handOn rows m .failed
      else holdAgain userId m now rows (rateLimitWaitMs e)

/-- The held ids, taken out of Redis. -/
def takeHeld (userId : ℕ) (m : Messenger) : Delivery (List ℕ) := do
  issue (.delete (.cargoDigestScheduled m userId))
  let ids : List ℕ ← issue (.hashGetAll (.cargoDigestPending m userId))
  runIf (ids ≠ []) (issue (.hashDelete (.cargoDigestPending m userId) ids))
  pure ids

/-- `findManyWithListing`: no ids, no query. -/
def findManyWithListing (ids : List ℕ) : Delivery (List LoadedNotice) :=
  if ids = [] then pure [] else issue (.findManyWithListing ids)

/-- `deliverDigest`. -/
def deliverDigest (window userId : ℕ) (m : Messenger) : Delivery QueuedOutcome := do
  let now ← dateNow
  let ids ← takeHeld userId m
  let found ← findManyWithListing ids
  match ← stillHeld m now found with
  | [] => pure .done
  | [row] => pure (.jobs [{ id := row.id, messenger := m, kind := .send }])
  | rows => do
      let sent ← (sendDigest window userId m now rows).attempt
      afterDigest userId m now rows sent

/-- `WHATSAPP_EDIT_WINDOW_MS`. -/
def whatsappEditWindowMs : ℕ := 14 * 60 * 1000

/-- The load is taken. -/
def isTaken (row : LoadedNotice) : Bool := row.listing.any (·.status = .taken)

/-- The edit of a WhatsApp message, or after its edit window a reaction. -/
def editWhatsapp (row : LoadedNotice) : Delivery Unit :=
  match (row.columns .whatsapp).message with
  | none => pure ()
  | some key => do
      let summary ← issue (.findByMessage .whatsapp key)
      let many : Bool := 1 < summary.length
      let allTaken := if many then summary.all isTaken else isTaken row
      let now ← dateNow
      if (row.columns .whatsapp).sentAt.any (now - · < whatsappEditWindowMs) then
        issue (.editMessage .whatsapp key)
      else runIf (!many || allTaken) (issue (.react .whatsapp key))

/-- The edit of a bot's message. -/
def editBot (m : Messenger) (row : LoadedNotice) : Delivery Unit :=
  match (row.columns m).message with
  | none => pure ()
  | some key => do
      let summary ← issue (.findByMessage m key)
      if 1 < summary.length then issue (.editMessage m key)
      else do
        runIf (!isTaken row) (do
          let _ ← issue (.outOfRequests row.userId)
          pure ())
        issue (.editMessage m key)

/-- `editQueued`. -/
def editQueued (id : ℕ) (m : Messenger) : Delivery QueuedOutcome := do
  match ← issue (.findWithListing .edit id) with
  | none => pure .done
  | some row =>
      if row.listing = none then pure .done
      else
        match ← (if m = .whatsapp then editWhatsapp row else editBot m row).attempt with
        | .ok _ => pure .done
        | .error e =>
            match rateLimitWaitMs e with
            | some wait => do
                let now ← dateNow
                pure (.retry (now + wait) (some wait))
            | none => pure .done

/-- `publish`, into a retry queue until `time`; RabbitMQ waits a second at least. -/
def publishLater (job : DeliveryJob) (time : ℕ) : Delivery Unit := do
  let now ← dateNow
  issue (.publish job (max 1000 (time - now)))

/-- `follow`.  The messenger's rate limiter, which only paces the jobs, is left out. -/
def follow (job : DeliveryJob) : QueuedOutcome → Delivery Unit
  | .done => pure ()
  | .retry time _ => publishLater job time
  | .next other => issue (.publish { job with messenger := other, tries := 0 } 0)
  | .digest userId time _ =>
      publishLater { id := userId, messenger := job.messenger, kind := .digest } time
  | .jobs jobs => .forEach (fun next => issue (.publish next 0)) jobs

/-- `MAX_TRIES` and `ERROR_RETRY_MS` of the queue. -/
def maxTries : ℕ := 5

def errorRetryMs : ℕ := 30 * 1000

/-- What a job does. -/
def work (window : ℕ) (job : DeliveryJob) : Delivery QueuedOutcome :=
  match job.kind with
  | .edit => editQueued job.id job.messenger
  | .digest => deliverDigest window job.id job.messenger
  | .send => deliverQueued window job.id job.messenger

/-- What is queued next; when it could not be, the message comes again as it came. -/
def followOrRequeue (message job : DeliveryJob) (outcome : QueuedOutcome) : Delivery Unit := do
  match ← (follow job outcome).attempt with
  | .ok _ => pure ()
  | .error _ => issue (.nack message true)

/-- `handle`. -/
def handle (window : ℕ) (job : DeliveryJob) : Delivery Unit := do
  match ← (work window job).attempt with
  | .ok outcome => followOrRequeue job job outcome
  | .error _ =>
      if maxTries ≤ job.tries + 1 then issue (.nack job false)
      else do
        let now ← dateNow
        followOrRequeue job { job with tries := job.tries + 1 } (.retry (now + errorRetryMs) none)

/-- A consumer is handed a job of its messenger. -/
def consume (window : ℕ) (m : Messenger) : Delivery Unit := do
  match ← issue (.receive m) with
  | none => pure ()
  | some job => handle window job

/-! ### Announcing a load -/

/-- `enqueue`: the jobs RabbitMQ did not take. -/
def publishEach : List DeliveryJob → Delivery (List DeliveryJob)
  | [] => pure []
  | job :: rest => do
      let taken ← (issue (.publish job 0)).attempt
      let failed ← publishEach rest
      pure (match taken with
        | .ok _ => failed
        | .error _ => job :: failed)

def enqueue (jobs : List DeliveryJob) : Delivery (List DeliveryJob) := do
  let up : Bool ← issue .queueAvailable
  if up then publishEach jobs else pure jobs

/-- `INSERT_BATCH`. -/
def insertBatch : ℕ := 1000

/-- The edits RabbitMQ did not take are made here; one that fails is only logged. -/
def editHere (job : DeliveryJob) : Delivery Unit := do
  let _ ← (editQueued job.id job.messenger).attempt
  pure ()

/-- What `queueJobs` does with its jobs: the sends RabbitMQ did not take go to the retry worker. -/
def queueOrSchedule (jobs : List DeliveryJob) : Delivery Unit := do
  let failed ← enqueue jobs
  let sends := (failed.filter (·.kind = .send)).map (·.id)
  runIf (sends ≠ []) (do
    let now ← dateNow
    .forEach (fun ids => issue (.scheduleRetry ids now)) (sends.toChunks insertBatch))
  .forEach editHere (failed.filter (·.kind = .edit))

/-- `queueJobs`; an error is only logged. -/
def queueJobs (jobs : List DeliveryJob) : Delivery Unit := do
  if jobs = [] then pure ()
  else do
    let _ ← (queueOrSchedule jobs).attempt
    pure ()

/-- The first job of a notice: none once it is sent, else through its first pending messenger. -/
def firstJob (row : LoadedNotice) : Option DeliveryJob :=
  if row.sentSomewhere then none
  else (messengerOrder.find? fun m => row.status m = .pending).map fun m =>
    { id := row.id, messenger := m, kind := .send }

/-- The rows of an announcement: a messenger the driver has not linked is skipped from the start. -/
def newNotices (listingId : ℕ) (recipients : List ℕ) (routes : ℕ → List Messenger) :
    List NewCargoNotification :=
  recipients.map fun driverId =>
    { userId := driverId
      listingId := listingId
      status := fun m => if m ∈ routes driverId then .pending else .skipped }

/-- `sendToDrivers`. -/
def sendToDrivers (listingId : ℕ) (recipients : List ℕ) : Delivery Unit := do
  let routes ← issue (.routes recipients)
  .forEach (fun rows => issue (.insertIgnoringDuplicates rows))
    ((newNotices listingId recipients routes).toChunks insertBatch)
  let found ← issue (.findByListing listingId)
  let rows := found.filter (·.userId ∈ recipients)
  queueJobs (rows.filterMap firstJob)

end TransportBackend.NoticeService
