import TransportBackend.AtomicProgram
import TransportBackend.KeyedTable
import TransportBackend.TripStore

/-!
# Drivers' notices: the table, Redis, the delivery queue

A driver's notice of a published load (`CargoNotification` with a `listingId`) keeps, for each
messenger, whether it was sent there.  Three places work on it: the consumers of the delivery queue
on RabbitMQ, the sweep of the retry worker, and the announcement that makes it.  Every repository
read and update, every Redis command, every publish and every message to a messenger they issue is
one atomic command (`Cmd`), with its effect on the store (`exec`).

What the store does not decide is a `World`: whether a user has linked a messenger, how a send ends,
whether RabbitMQ takes a job.  Each command gets its own, so nothing links one answer to the next.

A company's suggestions (notices without a load) are not here, nor are the texts, buttons, pictures'
contents and sockets: none of them decides which messenger a notice goes through.
-/

namespace TransportBackend.NoticeStore

open TransportBackend.AtomicProgram
open TransportBackend.KeyedTable
open TransportBackend.TripStore (CargoListing CargoListingStatus CargoTripType)

/-! ### Rows -/

/-- `Messenger`. -/
inductive Messenger where
  | bale
  | eitaa
  | rubika
  | telegram
  | whatsapp
  deriving DecidableEq, Repr

/-- `MESSENGER_ORDER`. -/
def messengerOrder : List Messenger := [.bale, .eitaa, .rubika, .telegram, .whatsapp]

theorem mem_messengerOrder (m : Messenger) : m ∈ messengerOrder := by
  cases m <;> decide

theorem nodup_messengerOrder : messengerOrder.Nodup := by decide

/-- `NotificationDeliveryStatus`. -/
inductive NotificationDeliveryStatus where
  | pending
  | sent
  | skipped
  | failed
  deriving DecidableEq, Repr

/-- Where a message is: its chat and its id (`chatId` and `messageId`; WhatsApp's
`whatsappMessageKey`). -/
structure MessageKey where
  chat : ℕ
  id : ℕ
  deriving DecidableEq, Repr

/-- The columns of one messenger (`BOT_DELIVERY_COLUMNS`; `sentAt` is WhatsApp's). -/
structure DeliveryColumns where
  status : NotificationDeliveryStatus
  attempts : ℕ
  nextRetryAt : Option ℕ
  message : Option MessageKey
  sentAt : Option ℕ
  deriving DecidableEq, Repr

/-- A driver's `CargoNotification`; times are milliseconds. -/
structure CargoNotification where
  id : ℕ
  userId : ℕ
  listingId : ℕ
  createdAt : ℕ
  columns : Messenger → DeliveryColumns

/-- A notice read with its load (`relations: { listing: true }`). -/
structure LoadedNotice extends CargoNotification where
  listing : Option CargoListing

/-- The status of one messenger. -/
def CargoNotification.status (row : CargoNotification) (m : Messenger) :
    NotificationDeliveryStatus := (row.columns m).status

/-- Some messenger has sent the notice. -/
def CargoNotification.sentSomewhere (row : CargoNotification) : Bool :=
  messengerOrder.any fun m => row.status m = .sent

/-- Whose notice a row is and when it was made. -/
def CargoNotification.made (row : CargoNotification) : ℕ × ℕ := (row.userId, row.createdAt)

/-- `CargoNotificationDelivery`: the columns of one messenger an update sets. -/
structure CargoNotificationDelivery where
  status : Option NotificationDeliveryStatus := none
  attempts : Option ℕ := none
  nextRetryAt : Option (Option ℕ) := none
  message : Option MessageKey := none
  sentAt : Option ℕ := none

/-- The columns after an update. -/
def CargoNotificationDelivery.applied (changes : CargoNotificationDelivery)
    (columns : DeliveryColumns) : DeliveryColumns where
  status := changes.status.getD columns.status
  attempts := changes.attempts.getD columns.attempts
  nextRetryAt := changes.nextRetryAt.getD columns.nextRetryAt
  message := changes.message.or columns.message
  sentAt := changes.sentAt.or columns.sentAt

/-- The notice with the columns of one messenger changed. -/
def CargoNotification.update (row : CargoNotification) (m : Messenger)
    (changes : CargoNotificationDelivery) : CargoNotification :=
  { row with columns := Function.update row.columns m (changes.applied (row.columns m)) }

/-- `NewCargoNotification`: the status of each messenger is set when the row is made. -/
structure NewCargoNotification where
  userId : ℕ
  listingId : ℕ
  status : Messenger → NotificationDeliveryStatus

/-- The row inserted. -/
def NewCargoNotification.row (new : NewCargoNotification) (id now : ℕ) : CargoNotification where
  id := id
  userId := new.userId
  listingId := new.listingId
  createdAt := now
  columns m := ⟨new.status m, 0, none, none, none⟩

/-- The kinds of `DeliveryJob`. -/
inductive JobKind where
  | send
  | edit
  | digest
  deriving DecidableEq, Repr

/-- `DeliveryJob`; a summary's `id` is its driver's user id. -/
structure DeliveryJob where
  id : ℕ
  messenger : Messenger
  kind : JobKind
  tries : ℕ := 0
  deriving DecidableEq, Repr

/-- A job on RabbitMQ; one in a retry queue comes back when its message expires. -/
structure QueuedJob where
  job : DeliveryJob
  availableAt : ℕ
  deriving DecidableEq, Repr

/-! ### Redis -/

/-- The keys of the summaries (`RedisService.key`). -/
inductive RedisKey where
  | cargoDigestWindow (m : Messenger) (userId : ℕ)
  | cargoDigestPending (m : Messenger) (userId : ℕ)
  | cargoDigestScheduled (m : Messenger) (userId : ℕ)
  deriving DecidableEq, Repr

/-- Keys with a value and the time they expire, and hashes with their fields and, once set, the time
they expire. -/
structure Redis where
  expiresAt : RedisKey → Option ℕ
  fields : RedisKey → List ℕ
  fieldsExpireAt : RedisKey → Option ℕ

namespace Redis

/-- Redis with no key. -/
def empty : Redis := ⟨fun _ => none, fun _ => [], fun _ => none⟩

variable (redis : Redis) (now : ℕ) (key : RedisKey)

/-- The key has a value. -/
def live : Bool := (redis.expiresAt key).any (now < ·)

/-- `set`, with its seconds to live. -/
def set (ttlSeconds : ℕ) : Redis :=
  { redis with expiresAt := Function.update redis.expiresAt key (some (now + ttlSeconds * 1000)) }

/-- `delete`. -/
def delete : Redis :=
  { redis with expiresAt := Function.update redis.expiresAt key none }

/-- `ttl`: the remaining seconds, rounded; -2 when the key is missing. -/
def ttl : ℤ :=
  match (redis.expiresAt key).filter (now < ·) with
  | some t => ((t - now + 500) / 1000 : ℕ)
  | none => -2

/-- The fields of a hash (`hashGetAll`). -/
def hash : List ℕ :=
  if (redis.fieldsExpireAt key).all (now < ·) then redis.fields key else []

/-- The hash with these fields; an empty hash is no key, so it has no time to live. -/
def withHash (fields : List ℕ) : Redis :=
  { redis with
    fields := Function.update redis.fields key fields
    fieldsExpireAt := Function.update redis.fieldsExpireAt key
      (if redis.hash now key = [] ∨ fields = [] then none else redis.fieldsExpireAt key) }

/-- `hashSet`. -/
def hashSet (field : ℕ) : Redis :=
  redis.withHash now key
    (if field ∈ redis.hash now key then redis.hash now key else redis.hash now key ++ [field])

/-- `hashDelete`. -/
def hashDelete (fields : List ℕ) : Redis :=
  redis.withHash now key ((redis.hash now key).filter (· ∉ fields))

/-- `expire` of a hash. -/
def expire (ttlSeconds : ℕ) : Redis :=
  if redis.hash now key = [] then redis
  else
    { redis with
      fieldsExpireAt := Function.update redis.fieldsExpireAt key (some (now + ttlSeconds * 1000)) }

end Redis

/-! ### The store -/

/-- The tables, Redis, the jobs waiting on RabbitMQ, whether a sweep is running
(`CargoDeliveryRetryWorker.running`), and the clock. -/
structure Store where
  notices : Table CargoNotification.id
  listings : Table CargoListing.id
  redis : Redis
  queue : List QueuedJob
  running : Bool
  clock : ℕ

namespace Store

variable (s : Store)

/-- A notice with its load. -/
def loaded (row : CargoNotification) : LoadedNotice :=
  { row with listing := s.listings.get row.listingId }

/-- Rows in the order they were made (`order: { createdAt: 'ASC' }`). -/
def byCreation (rows : List CargoNotification) : List CargoNotification :=
  rows.insertionSort (fun a b => a.createdAt ≤ b.createdAt)

/-- The notices with these ids. -/
def withIds (ids : List ℕ) : List CargoNotification := s.notices.rows.filter (·.id ∈ ids)

/-- The messenger is pending and its time has come. -/
def dueIn (now : ℕ) (row : CargoNotification) (m : Messenger) : Bool :=
  row.status m = .pending ∧ (row.columns m).nextRetryAt.any (· ≤ now)

/-- The notices with a messenger whose time has come, made since then. -/
def dueRetries (now createdAfter : ℕ) : List CargoNotification :=
  s.notices.rows.filter fun row =>
    createdAfter ≤ row.createdAt ∧ messengerOrder.any (dueIn now row)

/-- The notice rows with every row changed by `f`, which keeps ids. -/
def mapNotices (f : CargoNotification → CargoNotification) (hf : ∀ row, (f row).id = row.id) :
    Store :=
  { s with notices := ⟨s.notices.rows.map f, by
      rw [List.map_map, show CargoNotification.id ∘ f = CargoNotification.id from funext hf]
      exact s.notices.nodup⟩ }

/-- `updateDelivery`; an update of a row that is not there changes nothing. -/
def updateDelivery (id : ℕ) (m : Messenger) (changes : CargoNotificationDelivery) : Store :=
  match s.notices.get id with
  | some row => { s with notices := s.notices.put (row.update m changes) }
  | none => s

/-- The messenger of an old row, still pending, given up. -/
def expired (m : Messenger) (createdBefore : ℕ) (row : CargoNotification) : CargoNotification :=
  if row.status m = .pending ∧ row.createdAt < createdBefore then
    row.update m { status := some .failed, nextRetryAt := some none }
  else row

theorem expired_id (m : Messenger) (createdBefore : ℕ) (row : CargoNotification) :
    (expired m createdBefore row).id = row.id := by
  unfold expired
  split <;> rfl

/-- One of the updates of `failExpiredPending`. -/
def failExpired (m : Messenger) (createdBefore : ℕ) : Store :=
  s.mapNotices (expired m createdBefore) (expired_id m createdBefore)

/-- The row `scheduleRetry` leaves: every pending messenger due at this time. -/
def scheduled (ids : List ℕ) (time : ℕ) (row : CargoNotification) : CargoNotification :=
  if row.id ∈ ids then
    { row with columns := fun m =>
        { row.columns m with
          nextRetryAt := if row.status m = .pending then some time else none } }
  else row

theorem scheduled_id (ids : List ℕ) (time : ℕ) (row : CargoNotification) :
    (scheduled ids time row).id = row.id := by
  unfold scheduled
  split <;> rfl

/-- `scheduleRetry` of one batch. -/
def scheduleRetry (ids : List ℕ) (time : ℕ) : Store :=
  s.mapNotices (scheduled ids time) (scheduled_id ids time)

/-- One row of `insertIgnoringDuplicates`: a driver has one notice of a load. -/
def insertIgnoring (new : NewCargoNotification) : Store :=
  if s.notices.rows.any fun row => row.listingId = new.listingId ∧ row.userId = new.userId then s
  else { s with notices := s.notices.put (new.row s.notices.fresh s.clock) }

/-- The jobs of a messenger that are not waiting to be tried again. -/
def available (m : Messenger) : List QueuedJob :=
  s.queue.filter fun x => x.job.messenger = m ∧ x.availableAt ≤ s.clock

end Store

/-! ### Commands -/

/-- What a messenger, RabbitMQ or the database throws: the code of the response and, with 429, how
long to wait. -/
structure Fault where
  code : Option ℕ
  retryAfter : Option ℕ
  deriving DecidableEq, Repr

/-- Why a notice is read: to deliver it, or to edit its message. -/
inductive ReadUse where
  | deliver
  | edit
  deriving DecidableEq, Repr

/-- The atomic steps of a call. -/
inductive Cmd where
  | dateNow
  | findWithListing (use : ReadUse) (id : ℕ)
  | findManyWithListing (ids : List ℕ)
  | findByListing (listingId : ℕ)
  | findByMessage (m : Messenger) (key : MessageKey)
  | findDueRetries (now createdAfter take : ℕ)
  | updateDelivery (id : ℕ) (m : Messenger) (changes : CargoNotificationDelivery)
  | failExpired (m : Messenger) (createdBefore : ℕ)
  | scheduleRetry (ids : List ℕ) (time : ℕ)
  | insertIgnoringDuplicates (rows : List NewCargoNotification)
  | routes (userIds : List ℕ)
  | canReceiveAnnouncement (userId publisherUserId : ℕ) (tripType : CargoTripType)
  | outOfRequests (userId : ℕ)
  | findLink (userId : ℕ) (m : Messenger)
  | sendListingImage (id : ℕ) (m : Messenger)
  | sendListingVoice (id : ℕ) (m : Messenger)
  | send (m : Messenger) (chat : ℕ) (notices : List ℕ)
  | editMessage (m : Messenger) (key : MessageKey)
  | react (m : Messenger) (key : MessageKey)
  | setIfAbsent (key : RedisKey) (ttlSeconds : ℕ)
  | set (key : RedisKey) (ttlSeconds : ℕ)
  | delete (key : RedisKey)
  | ttl (key : RedisKey)
  | hashSet (key : RedisKey) (field : ℕ)
  | hashDelete (key : RedisKey) (fields : List ℕ)
  | hashGetAll (key : RedisKey)
  | expire (key : RedisKey) (ttlSeconds : ℕ)
  | queueAvailable
  | publish (job : DeliveryJob) (delay : ℕ)
  | receive (m : Messenger)
  | nack (job : DeliveryJob) (requeue : Bool)
  | startSweep
  | endSweep

/-- The value a command returns. -/
abbrev Answer : Cmd → Type
  | .dateNow => ℕ
  | .findWithListing _ _ => Option LoadedNotice
  | .findManyWithListing _ => List LoadedNotice
  | .findByListing _ => List LoadedNotice
  | .findByMessage _ _ => List LoadedNotice
  | .findDueRetries _ _ _ => List LoadedNotice
  | .routes _ => ℕ → List Messenger
  | .canReceiveAnnouncement _ _ _ => Bool
  | .outOfRequests _ => Bool
  | .findLink _ _ => Option ℕ
  | .send _ _ _ => ℕ
  | .setIfAbsent _ _ => Bool
  | .ttl _ => ℤ
  | .hashGetAll _ => List ℕ
  | .queueAvailable => Bool
  | .receive _ => Option DeliveryJob
  | .startSweep => Bool
  | _ => Unit

/-- A command returns its value or throws. -/
abbrev Resp (c : Cmd) : Type := Except Fault (Answer c)

/-- The commands that can throw while the database and Redis are up. -/
def Fallible : Cmd → Prop
  | .send _ _ _ => True
  | .editMessage _ _ => True
  | .react _ _ => True
  | .publish _ _ => True
  | _ => False

/-- What the outside of the store answers at one step. -/
structure World where
  /-- the user's chat in a messenger that is running, or none -/
  link : ℕ → Messenger → Option ℕ
  canReceive : Bool
  outOfRequests : Bool
  /-- the id of the message sent, or what the messenger threw -/
  sent : Except Fault ℕ
  edited : Except Fault Unit
  queueUp : Bool
  published : Except Fault Unit
  /-- which of the messenger's waiting jobs is handed out -/
  turn : ℕ

/-- The effect of a command. -/
def exec (w : World) : (c : Cmd) → Store → Resp c × Store
  | .dateNow, s => (.ok s.clock, s)
  | .findWithListing _ id, s => (.ok ((s.notices.get id).map s.loaded), s)
  | .findManyWithListing ids, s => (.ok ((Store.byCreation (s.withIds ids)).map s.loaded), s)
  | .findByListing lid, s => (.ok ((s.notices.rows.filter (·.listingId = lid)).map s.loaded), s)
  | .findByMessage m key, s =>
      (.ok ((Store.byCreation
        (s.notices.rows.filter fun row => (row.columns m).message = some key)).map s.loaded), s)
  | .findDueRetries now after take, s =>
      (.ok (((Store.byCreation (s.dueRetries now after)).take take).map s.loaded), s)
  | .updateDelivery id m changes, s => (.ok (), s.updateDelivery id m changes)
  | .failExpired m before, s => (.ok (), s.failExpired m before)
  | .scheduleRetry ids time, s => (.ok (), s.scheduleRetry ids time)
  | .insertIgnoringDuplicates rows, s => (.ok (), rows.foldl Store.insertIgnoring s)
  | .routes _, s => (.ok fun user => messengerOrder.filter fun m => (w.link user m).isSome, s)
  | .canReceiveAnnouncement _ _ _, s => (.ok w.canReceive, s)
  | .outOfRequests _, s => (.ok w.outOfRequests, s)
  | .findLink user m, s => (.ok (w.link user m), s)
  | .sendListingImage _ _, s => (.ok (), s)
  | .sendListingVoice _ _, s => (.ok (), s)
  | .send _ _ _, s => (w.sent, s)
  | .editMessage _ _, s => (w.edited, s)
  | .react _ _, s => (w.edited, s)
  | .setIfAbsent key ttl, s =>
      if s.redis.live s.clock key then (.ok false, s)
      else (.ok true, { s with redis := s.redis.set s.clock key ttl })
  | .set key ttl, s => (.ok (), { s with redis := s.redis.set s.clock key ttl })
  | .delete key, s => (.ok (), { s with redis := s.redis.delete key })
  | .ttl key, s => (.ok (s.redis.ttl s.clock key), s)
  | .hashSet key field, s => (.ok (), { s with redis := s.redis.hashSet s.clock key field })
  | .hashDelete key fields, s => (.ok (), { s with redis := s.redis.hashDelete s.clock key fields })
  | .hashGetAll key, s => (.ok (s.redis.hash s.clock key), s)
  | .expire key ttl, s => (.ok (), { s with redis := s.redis.expire s.clock key ttl })
  | .queueAvailable, s => (.ok w.queueUp, s)
  | .publish job delay, s =>
      match w.published with
      | .ok _ => (.ok (), { s with queue := s.queue ++ [⟨job, s.clock + delay⟩] })
      | .error e => (.error e, s)
  | .receive m, s =>
      match (s.available m)[w.turn]? with
      | some x => (.ok (some x.job), { s with queue := s.queue.erase x })
      | none => (.ok none, s)
  | .nack job requeue, s =>
      (.ok (), if requeue then { s with queue := s.queue ++ [⟨job, s.clock⟩] } else s)
  | .startSweep, s => (.ok !s.running, { s with running := true })
  | .endSweep, s => (.ok (), { s with running := false })

/-! ### What a command makes of a notice -/

theorem status_update_self (row : CargoNotification) (m : Messenger)
    (changes : CargoNotificationDelivery) :
    (row.update m changes).status m = changes.status.getD (row.status m) := by
  simp [CargoNotification.update, CargoNotification.status, CargoNotificationDelivery.applied]

theorem status_update_of_ne {row : CargoNotification} {m m' : Messenger}
    {changes : CargoNotificationDelivery} (h : m' ≠ m) :
    (row.update m changes).status m' = row.status m' := by
  simp [CargoNotification.update, CargoNotification.status, Function.update_of_ne h]

theorem status_scheduled (ids : List ℕ) (time : ℕ) (row : CargoNotification) (m : Messenger) :
    (Store.scheduled ids time row).status m = row.status m := by
  unfold Store.scheduled
  split <;> rfl

theorem sent_expired {m m' : Messenger} {createdBefore : ℕ} {row : CargoNotification} :
    (Store.expired m' createdBefore row).status m = .sent ↔ row.status m = .sent := by
  unfold Store.expired
  split
  · rename_i hold
    by_cases hm : m = m'
    · subst hm
      rw [status_update_self, hold.1]
      simp
    · rw [status_update_of_ne hm]
  · exact Iff.rfl

theorem get_mapNotices (s : Store) (f : CargoNotification → CargoNotification)
    (hf : ∀ row, (f row).id = row.id) (id : ℕ) :
    (s.mapNotices f hf).notices.get id = (s.notices.get id).map f := by
  show (s.notices.rows.map f).find? (fun row => row.id = id) = _
  rw [List.find?_map, show (fun row => row.id = id : CargoNotification → Bool) ∘ f =
    (fun row => row.id = id : CargoNotification → Bool) from funext fun row => by simp [hf]]
  rfl

theorem get_updateDelivery (s : Store) (id : ℕ) (m : Messenger)
    (changes : CargoNotificationDelivery) (n : ℕ) :
    (s.updateDelivery id m changes).notices.get n =
      if n = id then (s.notices.get id).map (·.update m changes) else s.notices.get n := by
  unfold Store.updateDelivery
  cases hrow : s.notices.get id with
  | none =>
      show s.notices.get n = _
      by_cases hn : n = id
      · rw [if_pos hn, hn]
        exact hrow
      · rw [if_neg hn]
  | some row =>
      have hid : (row.update m changes).id = id := by
        show row.id = id
        exact Table.key_of_get hrow
      show (s.notices.put (row.update m changes)).get n = _
      rw [Table.get_put, hid]
      rfl

theorem get_insertIgnoring {s : Store} (new : NewCargoNotification) {n : ℕ}
    {row : CargoNotification} (h : s.notices.get n = some row) :
    (s.insertIgnoring new).notices.get n = some row := by
  unfold Store.insertIgnoring
  split
  · exact h
  · have hne : n ≠ (new.row s.notices.fresh s.clock).id := by
      intro hn
      have hfresh := Table.get_fresh s.notices
      rw [show s.notices.fresh = n from hn.symm, h] at hfresh
      cases hfresh
    show (s.notices.put (new.row s.notices.fresh s.clock)).get n = some row
    rw [Table.get_put_of_ne hne]
    exact h

theorem get_foldl_insertIgnoring {n : ℕ} {row : CargoNotification}
    (rows : List NewCargoNotification) : ∀ {s : Store}, s.notices.get n = some row →
      (rows.foldl Store.insertIgnoring s).notices.get n = some row := by
  induction rows with
  | nil => exact fun h => h
  | cons new rows ih => exact fun h => ih (get_insertIgnoring new h)

/-- What a command makes of a notice that is there: nothing, an update of one messenger, a messenger
given up because the notice is old, or its messengers made due. -/
theorem exec_notice (w : World) (c : Cmd) {s : Store} {n : ℕ} {row : CargoNotification}
    (h : s.notices.get n = some row) :
    (exec w c s).2.notices.get n = some row ∨
    (∃ m changes, c = .updateDelivery n m changes ∧
      (exec w c s).2.notices.get n = some (row.update m changes)) ∨
    (∃ m createdBefore, c = .failExpired m createdBefore ∧
      (exec w c s).2.notices.get n = some (Store.expired m createdBefore row)) ∨
    (∃ ids time, c = .scheduleRetry ids time ∧
      (exec w c s).2.notices.get n = some (Store.scheduled ids time row)) := by
  cases c with
  | updateDelivery id m changes =>
      have hget := get_updateDelivery s id m changes n
      split at hget
      · rename_i hid
        subst hid
        rw [h] at hget
        exact .inr (.inl ⟨m, changes, rfl, hget⟩)
      · exact .inl (hget.trans h)
  | failExpired m createdBefore =>
      refine .inr (.inr (.inl ⟨m, createdBefore, rfl, ?_⟩))
      exact (get_mapNotices s _ (Store.expired_id m createdBefore) n).trans (by rw [h]; rfl)
  | scheduleRetry ids time =>
      refine .inr (.inr (.inr ⟨ids, time, rfl, ?_⟩))
      exact (get_mapNotices s _ (Store.scheduled_id ids time) n).trans (by rw [h]; rfl)
  | insertIgnoringDuplicates rows => exact .inl (get_foldl_insertIgnoring rows h)
  | setIfAbsent key ttl =>
      left
      simp only [exec]
      split <;> exact h
  | publish job delay =>
      left
      simp only [exec]
      split <;> exact h
  | receive m =>
      left
      simp only [exec]
      split <;> exact h
  | nack job requeue =>
      left
      simp only [exec]
      cases requeue <;> exact h
  | _ => exact .inl h

end TransportBackend.NoticeStore
