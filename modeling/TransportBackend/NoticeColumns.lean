import TransportBackend.NoticeMonitor

/-!
# The columns of a notice, call after call

Calls run one after another, each on the rows as they are when it reads them.  One monitor follows
the stored row of a notice together with what the call in progress has seen of it (`Sight`): a
write is allowed only to a messenger still pending, only when the row it leaves is in order
(`Kept`), and a messenger is given up only for a reason the call has seen.

* `accepts_columnsProgram` — every call keeps to that;
* `columns_kept` — **over whole runs** at most one messenger has sent a notice, a messenger that
  sent it, was skipped or failed never changes again, and the attempts stay within
  `MAX_DELIVERY_ATTEMPTS`.
-/

namespace TransportBackend.NoticeColumns

open TransportBackend.AtomicProgram
open TransportBackend.InterleavedRun
open TransportBackend.MonitoredProgram
open TransportBackend.KeyedTable
open TransportBackend.NoticeStore
open TransportBackend.NoticeService
open TransportBackend.NoticeMonitor
open TransportBackend.TripStore (CargoListing)

/-! ### Rows in order -/

/-- A row in order: one messenger has sent the notice at most, the attempts are within bounds, and a
messenger that is settled has no time to be tried again. -/
structure Kept (row : CargoNotification) : Prop where
  oneSent : ∀ m m', row.status m = .sent → row.status m' = .sent → m = m'
  attempts : ∀ m, (row.columns m).attempts ≤ maxDeliveryAttempts
  pending : ∀ m, row.status m = .pending → (row.columns m).attempts < maxDeliveryAttempts
  settled : ∀ m, row.status m ≠ .pending → (row.columns m).nextRetryAt = none

theorem sentSomewhere_iff {row : CargoNotification} :
    row.sentSomewhere = true ↔ ∃ m, row.status m = .sent := by
  rw [CargoNotification.sentSomewhere, List.any_eq_true]
  constructor
  · rintro ⟨m, _, hm⟩
    exact ⟨m, by simpa using hm⟩
  · rintro ⟨m, hm⟩
    exact ⟨m, mem_messengerOrder m, by simpa using hm⟩

theorem columns_update_self (row : CargoNotification) (m : Messenger)
    (changes : CargoNotificationDelivery) :
    (row.update m changes).columns m = changes.applied (row.columns m) := by
  simp [CargoNotification.update]

theorem columns_update_of_ne {row : CargoNotification} {m m' : Messenger}
    {changes : CargoNotificationDelivery} (h : m' ≠ m) :
    (row.update m changes).columns m' = row.columns m' := by
  simp [CargoNotification.update, Function.update_of_ne h]

/-- A write that keeps a row in order. -/
theorem Kept.update {row : CargoNotification} {m : Messenger} {changes : CargoNotificationDelivery}
    (h : Kept row)
    (hsent : (changes.applied (row.columns m)).status = .sent → row.sentSomewhere = false)
    (hattempts : (changes.applied (row.columns m)).attempts ≤ maxDeliveryAttempts)
    (hpending : (changes.applied (row.columns m)).status = .pending →
      (changes.applied (row.columns m)).attempts < maxDeliveryAttempts)
    (hsettled : (changes.applied (row.columns m)).status ≠ .pending →
      (changes.applied (row.columns m)).nextRetryAt = none) : Kept (row.update m changes) := by
  have hself := columns_update_self row m changes
  have hother : ∀ {x}, x ≠ m → (row.update m changes).columns x = row.columns x :=
    fun hx => columns_update_of_ne hx
  -- a messenger sent now is the only one
  have hfirst : ∀ x, x ≠ m → (row.update m changes).status m = .sent →
      (row.update m changes).status x ≠ .sent := by
    intro x hx hm hxs
    have hno := hsent (by rwa [CargoNotification.status, hself] at hm)
    have hsome : row.sentSomewhere = true :=
      sentSomewhere_iff.mpr ⟨x, by rwa [CargoNotification.status, hother hx] at hxs⟩
    rw [hno] at hsome
    cases hsome
  refine ⟨?_, ?_, ?_, ?_⟩
  · intro x y hx hy
    by_cases hxm : x = m
    · by_cases hym : y = m
      · rw [hxm, hym]
      · exact absurd hy (hfirst y hym (hxm ▸ hx))
    · by_cases hym : y = m
      · exact absurd hx (hfirst x hxm (hym ▸ hy))
      · rw [CargoNotification.status, hother hxm] at hx
        rw [CargoNotification.status, hother hym] at hy
        exact h.oneSent x y hx hy
  · intro x
    by_cases hx : x = m
    · rw [hx, hself]
      exact hattempts
    · rw [hother hx]
      exact h.attempts x
  · intro x hstatus
    rw [CargoNotification.status] at hstatus
    by_cases hx : x = m
    · rw [hx, hself] at hstatus ⊢
      exact hpending hstatus
    · rw [hother hx] at hstatus ⊢
      exact h.pending x hstatus
  · intro x hstatus
    rw [CargoNotification.status] at hstatus
    by_cases hx : x = m
    · rw [hx, hself] at hstatus ⊢
      exact hsettled hstatus
    · rw [hother hx] at hstatus ⊢
      exact h.settled x hstatus

/-- Giving a messenger up, or skipping it, keeps a row in order. -/
theorem Kept.settle {row : CargoNotification} {m : Messenger} {status : NotificationDeliveryStatus}
    (h : Kept row) (hsent : status ≠ .sent) (hpending : status ≠ .pending) :
    Kept (row.update m (settledAs status)) :=
  h.update (fun hs => absurd hs hsent) (h.attempts m) (fun hp => absurd hp hpending) (fun _ => rfl)

theorem kept_expired {row : CargoNotification} (h : Kept row) (m : Messenger) (createdBefore : ℕ) :
    Kept (Store.expired m createdBefore row) := by
  unfold Store.expired
  split
  · exact h.settle (by simp) (by simp)
  · exact h

theorem kept_scheduled {row : CargoNotification} (h : Kept row) (ids : List ℕ) (time : ℕ) :
    Kept (Store.scheduled ids time row) := by
  unfold Store.scheduled
  split
  · refine ⟨h.oneSent, h.attempts, h.pending, ?_⟩
    intro m hm
    exact if_neg hm
  · exact h

/-! ### The monitor of a row -/

/-- The stored row of a notice, and what the call in progress has seen: the messengers looked up and
not linked, what their sends threw, the time it last read, and whether the load was not open. -/
structure Sight where
  row : CargoNotification
  unlinked : Messenger → Bool
  fault : Messenger → Option Fault
  now : Option ℕ
  closed : Bool

/-- A call that has seen nothing yet. -/
def Sight.first (row : CargoNotification) : Sight := ⟨row, fun _ => false, fun _ => none, none, false⟩

/-- The messengers before this one. -/
def earlierThan (m : Messenger) : List Messenger := messengerOrder.takeWhile (· ≠ m)

/-- Why a messenger is skipped: not linked, sent through another, the load not open, or an earlier
messenger waiting to try again. -/
def WhySkipped (q : Sight) (m : Messenger) : Prop :=
  q.unlinked m = true ∨ q.row.sentSomewhere = true ∨ q.closed = true ∨
    ∃ m' ∈ earlierThan m, q.row.status m' = .pending

/-- Why a messenger is given up: its send failed for good, or failed and is not tried again, or the
notice is too old. -/
def WhyFailed (q : Sight) (m : Messenger) (changes : CargoNotificationDelivery) : Prop :=
  ∃ now, q.now = some now ∧
    ((∃ e, q.fault m = some e ∧ changes.attempts = some ((q.row.columns m).attempts + 1) ∧
      ((m ≠ .whatsapp ∧ isPermanentTelegramError e = true) ∨
        nextDeliveryRetryAt ((q.row.columns m).attempts + 1) q.row.createdAt now = none)) ∨
    deliveryRetryWindowMs < now - q.row.createdAt)

/-- A reason for what a write gives up. -/
def Reasoned (q : Sight) (m : Messenger) (changes : CargoNotificationDelivery) : Prop :=
  (changes.status = some .skipped → WhySkipped q m) ∧
    (changes.status = some .failed → WhyFailed q m changes)

/-- The writes allowed: to a messenger still pending, to a row in order and, unless summaries are
sent and notices swept too, for a reason. -/
def MayChange (digests : Bool) (q : Sight) (m : Messenger) (changes : CargoNotificationDelivery) :
    Prop :=
  q.row.status m = .pending ∧ Kept (q.row.update m changes) ∧
    (digests = true ∨ Reasoned q m changes)

/-- A call reads the rows as they are. -/
def Current (n : ℕ) (q : Sight) : (c : Cmd) → Answer c → Prop
  | .findWithListing _ id, found => ∀ row : LoadedNotice, found = some row →
      row.id = id ∧ (id = n → row.toCargoNotification = q.row)
  | .findManyWithListing _, rows => (List.map (fun row : LoadedNotice => row.id) rows).Nodup ∧
      ∀ row : LoadedNotice, row ∈ rows → row.id = n → row.toCargoNotification = q.row
  | _, _ => True

/-- What is known of a response while no other call runs. -/
def RespondsNow (n : ℕ) (q : Sight) (c : Cmd) : Resp c → Prop
  | .ok a => Current n q c a
  | .error _ => Fallible c

/-- What a call has seen after a response. -/
def Sight.sees (n : ℕ) (q : Sight) : (c : Cmd) → Resp c → Sight
  | .dateNow, .ok now => { q with now := some now }
  | .findWithListing .deliver id, .ok found =>
      if id = n then { q with closed := found.any isTaken } else q
  | .canReceiveAnnouncement user _ _, .ok isOpen =>
      if user = q.row.userId then { q with closed := q.closed || !isOpen } else q
  | .findLink user m, .ok none =>
      if user = q.row.userId then { q with unlinked := Function.update q.unlinked m true } else q
  | .send m _ ids, .error e =>
      if n ∈ ids then { q with fault := Function.update q.fault m (some e) } else q
  | .updateDelivery id m changes, _ =>
      if id = n then { q with row := q.row.update m changes } else q
  | .failExpired m createdBefore, _ => { q with row := Store.expired m createdBefore q.row }
  | .scheduleRetry ids time, _ => { q with row := Store.scheduled ids time q.row }
  | _, _ => q

/-- The monitor of the row of notice `n`. -/
def columnsMonitor (n : ℕ) (digests : Bool) : Monitor Resp Sight where
  allowed q
    | .updateDelivery id m changes => id = n → MayChange digests q m changes
    | .findManyWithListing _ => digests = true
    | .failExpired _ _ => digests = true
    | .scheduleRetry _ _ => digests = true
    | _ => True
  answers := RespondsNow n
  next := Sight.sees n

/-! ### Each call -/

section Calls

variable {n : ℕ} {digests : Bool} {q : Sight}

/-- The row and whether the load was seen not open: what a call keeps while it reads the clock,
Redis or the queue. -/
def Sight.view (q : Sight) : CargoNotification × Bool := (q.row, q.closed)

/-- A command that tells a call nothing about the row. -/
def blind : Cmd → Bool
  | .findWithListing .deliver _ => false
  | .findManyWithListing _ => false
  | .updateDelivery _ _ _ => false
  | .failExpired _ _ => false
  | .scheduleRetry _ _ => false
  | .canReceiveAnnouncement _ _ _ => false
  | _ => true

theorem blind_seen {c : Cmd} (h : blind c = true) (n : ℕ) (digests : Bool) (q : Sight) :
    (columnsMonitor n digests).allowed q c ∧ ∀ r, (q.sees n c r).view = q.view := by
  cases c with
  | dateNow => exact ⟨trivial, fun r => by cases r <;> rfl⟩
  | findWithListing use id =>
      cases use with
      | deliver => cases h
      | edit => exact ⟨trivial, fun _ => rfl⟩
  | findManyWithListing ids => cases h
  | updateDelivery id m changes => cases h
  | failExpired m before => cases h
  | scheduleRetry ids time => cases h
  | canReceiveAnnouncement user publisher trip => cases h
  | findLink user m =>
      refine ⟨trivial, fun r => ?_⟩
      cases r with
      | error e => rfl
      | ok link =>
          cases link with
          | some chat => rfl
          | none =>
              show Sight.view (if user = q.row.userId then _ else q) = q.view
              split <;> rfl
  | send m chat ids =>
      refine ⟨trivial, fun r => ?_⟩
      cases r with
      | ok a => rfl
      | error e =>
          show Sight.view (if n ∈ ids then _ else q) = q.view
          split <;> rfl
  | _ => exact ⟨trivial, fun _ => rfl⟩

theorem keeps_issue {c : Cmd} (h : blind c = true) :
    Keeps (columnsMonitor n digests) Sight.view (issue c) := by
  intro q
  obtain ⟨hallowed, hview⟩ := blind_seen h n digests q
  exact accepts_issue hallowed (fun a _ => hview _) (fun e _ => hview _)

theorem keeps_aside (c : Cmd) (h : aside c = true) :
    Keeps (columnsMonitor n digests) Sight.view (issue c) := by
  apply keeps_issue
  cases c with
  | findWithListing use id => cases use <;> first | rfl | cases h
  | send m chat ids => cases h
  | _ => first | rfl | cases h

/-- A command that tells nothing about the row and cannot throw. -/
theorem accepts_blind {c : Cmd} {Q : Except Fault (Answer c) → Sight → Prop}
    (h : blind c = true) (hsafe : ¬Fallible c) (hQ : ∀ a q', q'.view = q.view → Q (.ok a) q') :
    Accepts (columnsMonitor n digests) (issue c) q Q := by
  obtain ⟨hallowed, hview⟩ := blind_seen h n digests q
  exact accepts_issue hallowed (fun a _ => hQ a _ (hview _)) (fun _ hf => absurd hf hsafe)

theorem accepts_clock {Q : Except Fault ℕ → Sight → Prop}
    (hQ : ∀ now q', q'.view = q.view → q'.fault = q.fault → q'.now = some now → Q (.ok now) q') :
    Accepts (columnsMonitor n digests) dateNow q Q :=
  accepts_issue trivial (fun now _ => hQ now { q with now := some now } rfl rfl rfl) (fun _ hf => hf.elim)

/-- The row of the notice stands as the call believes: in order, with the same columns of this
messenger and nothing sent. -/
structure Faces (row : LoadedNotice) (m : Messenger) (q : Sight) : Prop where
  kept : Kept q.row
  columns : q.row.columns m = row.columns m
  made : q.row.made = row.made
  unsent : q.row.sentSomewhere = false

theorem Faces.userId {row : LoadedNotice} {m : Messenger} (h : Faces row m q) :
    q.row.userId = row.userId := congrArg Prod.fst h.made

theorem Faces.pending {row : LoadedNotice} {m : Messenger} (h : Faces row m q)
    (hpending : row.status m = .pending) : q.row.status m = .pending := by
  rw [CargoNotification.status, h.columns]
  exact hpending

theorem Faces.attempts {row : LoadedNotice} {m : Messenger} (h : Faces row m q)
    (hpending : row.status m = .pending) : (row.columns m).attempts < maxDeliveryAttempts := by
  rw [← h.columns]
  exact h.kept.pending m (h.pending hpending)

theorem Faces.congr {row : LoadedNotice} {m : Messenger} {q' : Sight} (h : Faces row m q)
    (hrow : q'.row = q.row) : Faces row m q' := by
  obtain ⟨h1, h2, h3, h4⟩ := h
  rw [← hrow] at h1 h2 h3 h4
  exact ⟨h1, h2, h3, h4⟩

/-- What a delivery through `m` leaves: the row of another notice, or the same row but for `m`, in
order and with the status the delivery reports. -/
structure Delivered (n : ℕ) (row : LoadedNotice) (m : Messenger) (q : Sight)
    (status : NotificationDeliveryStatus) (q' : Sight) : Prop where
  closed : q'.closed = q.closed
  other : row.id ≠ n → q'.row = q.row
  own : row.id = n → Kept q'.row ∧ q'.row.status m = status ∧ q'.row.made = q.row.made ∧
    ∀ m', m' ≠ m → q'.row.columns m' = q.row.columns m'

theorem Delivered.congr {row : LoadedNotice} {m : Messenger} {q' q'' : Sight}
    {status : NotificationDeliveryStatus} (h : Delivered n row m q status q')
    (hview : q''.view = q'.view) : Delivered n row m q status q'' := by
  obtain ⟨hrow, hclosed⟩ := Prod.mk.inj hview
  obtain ⟨h1, h2, h3⟩ := h
  rw [← hclosed] at h1
  rw [← hrow] at h2 h3
  exact ⟨h1, h2, h3⟩

/-- A write to the notice, or to another one. -/
theorem accepts_change {id : ℕ} {m : Messenger} {changes : CargoNotificationDelivery}
    {Q : Except Fault Unit → Sight → Prop} (hmay : id = n → MayChange digests q m changes)
    (hQ : Q (.ok ()) (if id = n then { q with row := q.row.update m changes } else q)) :
    Accepts (columnsMonitor n digests) (updateDelivery id m changes) q Q :=
  accepts_issue hmay (fun _ _ => hQ) (fun _ hf => hf.elim)

/-- The write at the end of a delivery. -/
theorem accepts_deliveryWrite {row : LoadedNotice} {m : Messenger}
    {changes : CargoNotificationDelivery} {q₀ : Sight} {status : NotificationDeliveryStatus}
    {Q : Except Fault Unit → Sight → Prop} (hview : q.view = q₀.view)
    (hmay : row.id = n → MayChange digests q m changes)
    (hstatus : row.id = n → changes.status.getD (q₀.row.status m) = status)
    (hQ : ∀ q', Delivered n row m q₀ status q' → Q (.ok ()) q') :
    Accepts (columnsMonitor n digests) (updateDelivery row.id m changes) q Q := by
  obtain ⟨hrow, hclosed⟩ := Prod.mk.inj hview
  apply accepts_change hmay
  apply hQ
  by_cases hid : row.id = n
  · rw [if_pos hid]
    refine ⟨hclosed, fun h => absurd hid h, fun _ => ⟨(hmay hid).2.1, ?_, ?_, ?_⟩⟩
    · rw [status_update_self, hrow]
      exact hstatus hid
    · show q.row.made = _
      rw [hrow]
    · intro m' hm'
      rw [columns_update_of_ne hm', hrow]
  · rw [if_neg hid]
    exact ⟨hclosed, fun _ => hrow, fun h => absurd h hid⟩

theorem accepts_canDeliver {row : LoadedNotice} {Q : Except Fault Bool → Sight → Prop}
    (huser : row.id = n → row.userId = q.row.userId)
    (hclosed : row.id = n → isTaken row = true → q.closed = true)
    (hQ : ∀ isOpen q', q'.row = q.row → (row.id = n → isOpen = false → q'.closed = true) →
      Q (.ok isOpen) q') :
    Accepts (columnsMonitor n digests) (canDeliverListing row) q Q := by
  unfold canDeliverListing
  split
  · exact hQ true q rfl (fun _ h => by cases h)
  · rename_i listing hlisting
    split
    · rename_i htaken
      apply hQ false q rfl
      intro hid _
      exact hclosed hid (by simp [isTaken, hlisting, htaken])
    · apply accepts_issue trivial
      · intro isOpen _
        show Q (.ok isOpen)
          (if row.userId = q.row.userId then { q with closed := q.closed || !isOpen } else q)
        split
        · apply hQ isOpen { q with closed := q.closed || !isOpen } rfl
          intro _ hno
          show (q.closed || !isOpen) = true
          rw [hno]
          simp
        · rename_i hother
          apply hQ isOpen q rfl
          intro hid _
          exact absurd (huser hid) hother
      · intro e hf
        exact hf.elim

/-- Whether the load may still be delivered changes no row. -/
theorem accepts_mayDeliver {row : LoadedNotice} {Q : Except Fault Bool → Sight → Prop}
    (hQ : ∀ isOpen q', q'.row = q.row → Q (.ok isOpen) q') :
    Accepts (columnsMonitor n digests) (canDeliverListing row) q Q := by
  unfold canDeliverListing
  split
  · exact hQ true q rfl
  · split
    · exact hQ false q rfl
    · refine accepts_issue trivial (fun isOpen _ => hQ isOpen _ ?_) (fun _ hf => hf.elim)
      show (if row.userId = q.row.userId then { q with closed := q.closed || !isOpen } else q).row = _
      split <;> rfl

theorem accepts_link {row : LoadedNotice} {m : Messenger} {isOpen : Bool}
    {Q : Except Fault (Option ℕ) → Sight → Prop}
    (huser : row.id = n → row.userId = q.row.userId)
    (hclosed : row.id = n → isOpen = false → q.closed = true)
    (hsome : ∀ chat q', q'.view = q.view → Q (.ok (some chat)) q')
    (hnone : ∀ q', q'.view = q.view → (row.id = n → q'.unlinked m = true ∨ q'.closed = true) →
      Q (.ok none) q') :
    Accepts (columnsMonitor n digests) (linkOf row m isOpen) q Q := by
  unfold linkOf
  split
  · apply accepts_issue trivial
    · intro link _
      cases link with
      | some chat => exact hsome chat q rfl
      | none =>
          show Q (.ok none) (if row.userId = q.row.userId then
            { q with unlinked := Function.update q.unlinked m true } else q)
          split
          · apply hnone { q with unlinked := Function.update q.unlinked m true } rfl
            intro _
            exact .inl (by simp)
          · rename_i hother
            apply hnone q rfl
            intro hid
            exact absurd (huser hid) hother
    · intro e hf
      exact hf.elim
  · rename_i hopen
    apply hnone q rfl
    intro hid
    exact .inr (hclosed hid (by simpa using hopen))

/-! ### One messenger -/

section Via

variable {row : LoadedNotice} {m : Messenger} {q₀ : Sight}
  {Q : Except Fault DeliveryResult → Sight → Prop}

theorem accepts_skipDelivery (hview : q.view = q₀.view) (hpending : row.status m = .pending)
    (hfaces : row.id = n → Faces row m q₀)
    (hwhy : row.id = n → q.unlinked m = true ∨ q.closed = true)
    (hQ : ∀ result q', Delivered n row m q₀ result.status q' → Q (.ok result) q') :
    Accepts (columnsMonitor n digests) (skipDelivery row m) q Q := by
  unfold skipDelivery
  rw [accepts_bind]
  apply accepts_deliveryWrite hview
  · intro hid
    have hf : Faces row m q := (hfaces hid).congr (congrArg Prod.fst hview)
    refine ⟨hf.pending hpending, hf.kept.settle (by simp) (by simp), .inr ⟨?_, ?_⟩⟩
    · intro _
      rcases hwhy hid with h | h
      · exact .inl h
      · exact .inr (.inr (.inl h))
    · intro h
      cases h
  · intro _
    rfl
  · intro q' hq'
    exact hQ { status := .skipped } q' hq'

theorem nextDeliveryRetryAt_attempts {attempts createdAt now time : ℕ}
    (h : nextDeliveryRetryAt attempts createdAt now = some time) : attempts < maxDeliveryAttempts := by
  unfold nextDeliveryRetryAt at h
  split at h
  · cases h
  · omega

/-- A failed send, tried again while attempts are left and otherwise given up. -/
theorem accepts_deliveryFailed {e : Fault} {now : ℕ} {retryAt : Option ℕ}
    (hnow : q.now = some now) (hview : q.view = q₀.view)
    (hpending : row.status m = .pending) (hfaces : row.id = n → Faces row m q₀)
    (hfault : row.id = n → q.fault m = some e)
    (hmore : retryAt.isSome = true → (row.columns m).attempts + 1 < maxDeliveryAttempts)
    (hdone : retryAt = none → (m ≠ .whatsapp ∧ isPermanentTelegramError e = true) ∨
      nextDeliveryRetryAt ((row.columns m).attempts + 1) row.createdAt now = none)
    (hQ : ∀ result q', Delivered n row m q₀ result.status q' → Q (.ok result) q') :
    Accepts (columnsMonitor n digests)
      (deliveryFailed row m ((row.columns m).attempts + 1) retryAt) q Q := by
  unfold deliveryFailed
  rw [accepts_bind]
  apply accepts_deliveryWrite hview
  · intro hid
    have hf : Faces row m q := (hfaces hid).congr (congrArg Prod.fst hview)
    have hless := hf.attempts hpending
    refine ⟨hf.pending hpending, ?_, .inr ⟨?_, ?_⟩⟩
    · apply hf.kept.update
      · intro hsent
        cases hr : retryAt.isSome <;> simp [CargoNotificationDelivery.applied, hr] at hsent
      · show (row.columns m).attempts + 1 ≤ maxDeliveryAttempts
        omega
      · intro hwaits
        apply hmore
        cases hr : retryAt.isSome with
        | true => rfl
        | false => simp [CargoNotificationDelivery.applied, hr] at hwaits
      · intro hend
        show retryAt = none
        cases retryAt with
        | none => rfl
        | some time => exact absurd rfl hend
    · intro hskip
      cases hr : retryAt.isSome <;> simp [hr] at hskip
    · intro hfail
      refine ⟨now, hnow, .inl ⟨e, hfault hid, ?_, ?_⟩⟩
      · rw [hf.columns]
      · rw [hf.columns, show q.row.createdAt = row.createdAt from congrArg Prod.snd hf.made]
        apply hdone
        cases retryAt with
        | none => rfl
        | some time => simp at hfail
  · intro _
    rfl
  · intro q' hq'
    exact hQ _ q' hq'

theorem accepts_botFailed {e : Fault} (hview : q.view = q₀.view) (hm : m ≠ .whatsapp)
    (hpending : row.status m = .pending) (hfaces : row.id = n → Faces row m q₀)
    (hfault : row.id = n → q.fault m = some e)
    (hQ : ∀ result q', Delivered n row m q₀ result.status q' → Q (.ok result) q') :
    Accepts (columnsMonitor n digests) (botFailed row m e) q Q := by
  unfold botFailed
  rw [accepts_bind]
  apply accepts_clock
  intro now q₁ hview₁ hfault₁ hnow
  rw [← hview₁] at hview
  rw [← hfault₁] at hfault
  rw [outcome_ok]
  split
  · rename_i wait hwait
    rw [accepts_bind]
    -- a wait the messenger asked for: still pending, and no attempt is counted
    refine accepts_deliveryWrite hview ?_ ?_ fun q' hq' =>
      hQ { status := .pending, retryAt := some (now + wait), pauseMs := some wait } q' hq'
    · intro hid
      have hf : Faces row m q₁ := (hfaces hid).congr (congrArg Prod.fst hview)
      refine ⟨hf.pending hpending, ?_, .inr ⟨fun h => ?_, fun h => ?_⟩⟩
      · apply hf.kept.update
        · intro _
          exact hf.unsent
        · exact hf.kept.attempts m
        · intro _
          exact hf.kept.pending m (hf.pending hpending)
        · intro hend
          exact absurd (hf.pending hpending) hend
      · cases h
      · cases h
    · intro hid
      exact (hfaces hid).pending hpending
  · apply accepts_deliveryFailed hnow hview hpending hfaces hfault _ _ hQ
    · intro hsome
      obtain ⟨time, htime⟩ := Option.isSome_iff_exists.mp hsome
      split at htime
      · cases htime
      · exact nextDeliveryRetryAt_attempts htime
    · intro hnone
      split at hnone
      · rename_i hperm
        exact .inl ⟨hm, hperm⟩
      · exact .inr hnone

/-- A send that carries one notice. -/
theorem accepts_send {chat : ℕ} {Q : Except Fault ℕ → Sight → Prop}
    (hok : ∀ messageId, Q (.ok messageId) q)
    (herr : ∀ e q', q'.view = q.view → (row.id = n → q'.fault m = some e) → Q (.error e) q') :
    Accepts (columnsMonitor n digests) (issue (.send m chat [row.id])) q Q := by
  apply accepts_issue trivial
  · intro messageId _
    exact hok messageId
  · intro e _
    apply herr e
    · exact (blind_seen (c := .send m chat [row.id]) rfl n digests q).2 _
    · intro hid
      show (if n ∈ [row.id] then { q with fault := Function.update q.fault m (some e) }
        else q).fault m = some e
      rw [if_pos (by simp [hid])]
      simp

/-- What was sent is written down. -/
theorem accepts_writeSent {changes : CargoNotificationDelivery}
    {Q : Except Fault Unit → Sight → Prop} (hview : q.view = q₀.view)
    (hpending : row.status m = .pending) (hfaces : row.id = n → Faces row m q₀)
    (hsent : changes.status = some .sent) (hretry : changes.nextRetryAt = some none)
    (hattempts : changes.attempts = none ∨ changes.attempts = some ((row.columns m).attempts + 1))
    (hQ : ∀ q', Delivered n row m q₀ .sent q' → Q (.ok ()) q') :
    Accepts (columnsMonitor n digests) (updateDelivery row.id m changes) q Q := by
  apply accepts_deliveryWrite hview _ _ hQ
  · intro hid
    have hf : Faces row m q := (hfaces hid).congr (congrArg Prod.fst hview)
    have hless := hf.attempts hpending
    refine ⟨hf.pending hpending, ?_, .inr ⟨fun h => ?_, fun h => ?_⟩⟩
    · apply hf.kept.update
      · intro _
        exact hf.unsent
      · rw [CargoNotificationDelivery.applied, hf.columns]
        rcases hattempts with h | h
        · simp only [h, Option.getD_none]
          omega
        · simp only [h, Option.getD_some]
          omega
      · intro h
        simp [CargoNotificationDelivery.applied, hsent] at h
      · intro _
        simp [CargoNotificationDelivery.applied, hretry]
    · rw [hsent] at h
      cases h
    · rw [hsent] at h
      cases h
  · intro _
    rw [hsent]
    rfl

theorem accepts_image {b : Bool} {id : ℕ} {Q : Except Fault Unit → Sight → Prop}
    (hQ : ∀ q', q'.view = q.view → Q (.ok ()) q') :
    Accepts (columnsMonitor n digests) (runIf b (issue (.sendListingImage id m))) q Q := by
  cases b with
  | true => exact accepts_blind (c := .sendListingImage id m) rfl not_false fun _ => hQ
  | false => exact hQ q rfl

theorem accepts_sendBot {chat : ℕ} {Q : Except Fault Unit → Sight → Prop}
    (hview : q.view = q₀.view) (hpending : row.status m = .pending)
    (hfaces : row.id = n → Faces row m q₀)
    (hok : ∀ q', Delivered n row m q₀ .sent q' → Q (.ok ()) q')
    (herr : ∀ e q', q'.view = q₀.view → (row.id = n → q'.fault m = some e) → Q (.error e) q') :
    Accepts (columnsMonitor n digests) (sendBot row m chat) q Q := by
  unfold sendBot
  rw [accepts_bind]
  apply accepts_image
  intro q₁ h₁
  rw [outcome_ok, accepts_bind]
  apply accepts_blind (c := .outOfRequests row.userId) rfl not_false
  intro _ q₂ h₂
  have hview₂ : q₂.view = q₀.view := (h₂.trans h₁).trans hview
  rw [outcome_ok, accepts_bind]
  apply accepts_send
  · intro messageId
    exact accepts_writeSent hview₂ hpending hfaces rfl rfl (.inr rfl) hok
  · intro e q₃ h₃ hfault
    exact herr e q₃ (h₃.trans hview₂) hfault

theorem accepts_sendWhatsapp {jid : ℕ} {Q : Except Fault Unit → Sight → Prop}
    (hview : q.view = q₀.view) (hpending : row.status .whatsapp = .pending)
    (hfaces : row.id = n → Faces row .whatsapp q₀)
    (hok : ∀ q', Delivered n row .whatsapp q₀ .sent q' → Q (.ok ()) q')
    (herr : ∀ e q', q'.view = q₀.view → (row.id = n → q'.fault .whatsapp = some e) →
      Q (.error e) q') :
    Accepts (columnsMonitor n digests) (sendWhatsapp row jid) q Q := by
  unfold sendWhatsapp
  rw [accepts_bind]
  apply accepts_image
  intro q₁ h₁
  rw [outcome_ok, accepts_bind]
  apply accepts_send
  · intro key
    rw [outcome_ok, accepts_bind]
    apply accepts_clock
    intro _ q₂ h₂ _ _
    rw [outcome_ok, accepts_bind]
    apply accepts_writeSent ((h₂.trans h₁).trans hview) hpending hfaces rfl rfl (.inr rfl)
    intro q₃ h₃
    exact accepts_blind (c := .sendListingVoice row.id .whatsapp) rfl not_false
      fun _ q₄ h₄ => hok q₄ (h₃.congr h₄)
  · intro e q₃ h₃ hfault
    exact herr e q₃ ((h₃.trans h₁).trans hview) hfault

/-- A delivery through one messenger leaves the row in order, whatever it meets, and gives the
messenger up only for a reason. -/
theorem accepts_deliverVia {isOpen : Bool} (hpending : row.status m = .pending)
    (hfaces : row.id = n → Faces row m q) (hclosed : row.id = n → isOpen = false → q.closed = true)
    (hQ : ∀ result q', Delivered n row m q result.status q' → Q (.ok result) q') :
    Accepts (columnsMonitor n digests) (deliverVia m row isOpen) q Q := by
  unfold deliverVia
  split
  · rename_i hm
    subst hm
    unfold deliverWhatsapp
    rw [if_neg (by simp [hpending]), accepts_bind]
    apply accepts_link (fun hid => (hfaces hid).userId.symm) hclosed
    · intro jid q₁ h₁
      rw [outcome_ok, accepts_bind, accepts_attempt]
      apply accepts_sendWhatsapp h₁ hpending hfaces
      · exact hQ { status := .sent }
      · intro e q₂ h₂ hfault
        rw [outcome_ok, accepts_bind]
        apply accepts_clock
        intro now q₃ h₃ hfault₃ hnow
        apply accepts_deliveryFailed hnow (h₃.trans h₂) hpending hfaces (e := e) _ _ _ hQ
        · intro hid
          rw [hfault₃]
          exact hfault hid
        · intro hsome
          obtain ⟨time, htime⟩ := Option.isSome_iff_exists.mp hsome
          exact nextDeliveryRetryAt_attempts htime
        · exact .inr
    · intro q₁ h₁ hwhy
      exact accepts_skipDelivery h₁ hpending hfaces hwhy hQ
  · rename_i hm
    unfold deliverBot
    rw [if_neg (by simp [hpending]), accepts_bind]
    apply accepts_link (fun hid => (hfaces hid).userId.symm) hclosed
    · intro chat q₁ h₁
      rw [outcome_ok, accepts_bind, accepts_attempt]
      apply accepts_sendBot h₁ hpending hfaces
      · intro q₂ h₂
        rw [outcome_ok, accepts_bind]
        exact accepts_blind (c := .sendListingVoice row.id m) rfl not_false
          fun _ q₃ h₃ => hQ { status := .sent } q₃ (h₂.congr h₃)
      · intro e q₂ h₂ hfault
        exact accepts_botFailed h₂ hm hpending hfaces hfault hQ
    · intro q₁ h₁ hwhy
      exact accepts_skipDelivery h₁ hpending hfaces hwhy hQ

end Via

/-! ### Through the messengers in order -/

theorem earlier_pairwise : messengerOrder.Pairwise fun m m' => m ∈ earlierThan m' := by decide

/-- Who has the notice before the messengers `ms` come: it is sent, or an earlier one waits. -/
def HasIt (ms : List Messenger) (row : CargoNotification) : Prop :=
  row.sentSomewhere = true ∨
    ∃ m', m' ∉ ms ∧ row.status m' = .pending ∧ ∀ m ∈ ms, m' ∈ earlierThan m

theorem HasIt.tail {m : Messenger} {ms : List Messenger} {row : CargoNotification}
    (h : HasIt (m :: ms) row) : HasIt ms row := by
  rcases h with h | ⟨m', hm', hpending, hearlier⟩
  · exact .inl h
  · exact .inr ⟨m', fun hmem => hm' (by simp [hmem]), hpending, fun x hx => hearlier x (by simp [hx])⟩

/-- A messenger passed over while it waits has the notice. -/
theorem hasIt_of_pending {m : Messenger} {ms : List Messenger} {row : CargoNotification}
    (hsuffix : m :: ms <:+ messengerOrder) (hpending : row.status m = .pending) : HasIt ms row := by
  have hnodup := List.nodup_cons.mp (nodup_messengerOrder.sublist hsuffix.sublist)
  have hearlier := List.pairwise_cons.mp (earlier_pairwise.sublist hsuffix.sublist)
  exact .inr ⟨m, hnodup.1, hpending, hearlier.1⟩

/-- Skipping the next messenger does not take the notice from who has it. -/
theorem HasIt.skip {m : Messenger} {ms : List Messenger} {row : CargoNotification}
    (h : HasIt (m :: ms) row) (hpending : row.status m = .pending) :
    HasIt ms (row.update m (settledAs .skipped)) := by
  rcases h with h | ⟨m', hm', hpending', hearlier⟩
  · obtain ⟨x, hx⟩ := sentSomewhere_iff.mp h
    refine .inl (sentSomewhere_iff.mpr ⟨x, ?_⟩)
    rw [status_update_of_ne]
    · exact hx
    · rintro rfl
      rw [hpending] at hx
      cases hx
  · refine .inr ⟨m', fun hmem => hm' (by simp [hmem]), ?_, fun x hx => hearlier x (by simp [hx])⟩
    rw [status_update_of_ne fun hmm => hm' (by simp [hmm])]
    exact hpending'

/-- The loop of `deliverThroughOne` before the messengers `ms`: their columns are as they were read,
and `taken` says whether somebody has the notice. -/
structure Ahead (row : LoadedNotice) (isOpen taken : Bool) (ms : List Messenger) (q : Sight) :
    Prop where
  kept : Kept q.row
  columns : ∀ m ∈ ms, q.row.columns m = row.columns m
  made : q.row.made = row.made
  closed : isOpen = false → q.closed = true
  unsent : taken = false → q.row.sentSomewhere = false
  held : taken = true → HasIt ms q.row

section Through

variable {row : LoadedNotice} {isOpen : Bool} {m : Messenger} {ms : List Messenger}

theorem Ahead.status {taken : Bool} (h : Ahead row isOpen taken (m :: ms) q) :
    q.row.status m = row.status m := by
  rw [CargoNotification.status, h.columns m (by simp)]
  rfl

/-- The messenger is passed over; `taken'` says whether somebody has the notice now. -/
theorem Ahead.pass {taken taken' : Bool} (h : Ahead row isOpen taken (m :: ms) q)
    (hunsent : taken' = false → q.row.sentSomewhere = false)
    (hheld : taken' = true → HasIt ms q.row) : Ahead row isOpen taken' ms q :=
  ⟨h.kept, fun x hx => h.columns x (by simp [hx]), h.made, h.closed, hunsent, hheld⟩

/-- What a delivery through the next messenger leads to. -/
theorem Ahead.delivered {status : NotificationDeliveryStatus} {q' : Sight}
    (h : Ahead row isOpen false (m :: ms) q) (hsuffix : m :: ms <:+ messengerOrder)
    (hd : Delivered n row m q status q') (hid : row.id = n) :
    Ahead row isOpen (status = .sent ∨ status = .pending) ms q' := by
  obtain ⟨hkept, hstatus, hmade, hother⟩ := hd.own hid
  have hnodup := List.nodup_cons.mp (nodup_messengerOrder.sublist hsuffix.sublist)
  refine ⟨hkept, ?_, hmade.trans h.made, ?_, ?_, ?_⟩
  · intro x hx
    rw [hother x fun hxm => hnodup.1 (hxm ▸ hx)]
    exact h.columns x (by simp [hx])
  · intro ho
    rw [hd.closed]
    exact h.closed ho
  · intro htaken
    by_contra hsent
    obtain ⟨x, hx⟩ := sentSomewhere_iff.mp (Bool.not_eq_false _ ▸ hsent)
    by_cases hxm : x = m
    · rw [hxm, hstatus] at hx
      simp [hx] at htaken
    · have hbefore : q.row.sentSomewhere = true :=
        sentSomewhere_iff.mpr ⟨x, by rwa [CargoNotification.status, hother x hxm] at hx⟩
      rw [h.unsent rfl] at hbefore
      cases hbefore
  · intro htaken
    rcases of_decide_eq_true htaken with hsent | hpending
    · exact .inl (sentSomewhere_iff.mpr ⟨m, hstatus.trans hsent⟩)
    · exact hasIt_of_pending hsuffix (hstatus.trans hpending)

/-- The loop of `deliverThroughOne`: a messenger is skipped unseen only when an earlier one has the
notice. -/
theorem accepts_deliverThrough {ready : Messenger → Bool} :
    ∀ {taken : Bool} {q : Sight}, ms <:+ messengerOrder →
      (row.id = n → Ahead row isOpen taken ms q) →
      Accepts (columnsMonitor n digests) (deliverThrough row isOpen ready taken ms) q
        (fun _ _ => True) := by
  induction ms with
  | nil =>
      intro taken q _ _
      trivial
  | cons m ms ih =>
      intro taken q hsuffix h
      have hrest : ms <:+ messengerOrder := (List.suffix_cons m ms).trans hsuffix
      cases taken with
      | true =>
          show Accepts _ (runIf _ _ >>= fun _ => deliverThrough row isOpen ready true ms) q _
          rw [accepts_bind]
          by_cases hpending : row.status m = .pending
          · rw [runIf, if_pos (by simp [hpending])]
            apply accepts_change
            · intro hid
              have ha := h hid
              have hwaits : q.row.status m = .pending := ha.status.trans hpending
              refine ⟨hwaits, ha.kept.settle (by simp) (by simp), .inr ⟨fun _ => ?_, fun hf => ?_⟩⟩
              · rcases ha.held rfl with hsent | ⟨m', _, hm', hearlier⟩
                · exact .inr (.inl hsent)
                · exact .inr (.inr (.inr ⟨m', hearlier m (by simp), hm'⟩))
              · cases hf
            · apply ih hrest
              intro hid
              have ha := h hid
              have hwaits : q.row.status m = .pending := ha.status.trans hpending
              have hnodup := List.nodup_cons.mp (nodup_messengerOrder.sublist hsuffix.sublist)
              rw [if_pos hid]
              refine ⟨ha.kept.settle (by simp) (by simp), ?_, ha.made, ha.closed,
                (fun hf => by cases hf), fun _ => (ha.held rfl).skip hwaits⟩
              intro x hx
              have hxm : x ≠ m := fun heq => hnodup.1 (heq ▸ hx)
              rw [columns_update_of_ne hxm]
              exact ha.columns x (by simp [hx])
          · rw [runIf, if_neg (by simp [hpending])]
            apply ih hrest
            intro hid
            have ha := h hid
            exact ha.pass (fun hf => by cases hf) fun _ => (ha.held rfl).tail
      | false =>
          unfold deliverThrough
          split
          · apply ih hrest
            intro hid
            have ha := h hid
            apply ha.pass
            · intro _
              exact ha.unsent rfl
            · intro hsent
              exact .inl (sentSomewhere_iff.mpr ⟨m, ha.status.trans (of_decide_eq_true hsent)⟩)
          · rename_i hpending
            rw [not_not] at hpending
            split
            · -- not its time yet: it waits, and has the notice
              apply ih hrest
              intro hid
              have ha := h hid
              apply ha.pass
              · intro hf
                cases hf
              · intro _
                exact hasIt_of_pending hsuffix (ha.status.trans hpending)
            · rw [accepts_bind]
              apply accepts_deliverVia hpending
              · intro hid
                have ha := h hid
                exact ⟨ha.kept, ha.columns m (by simp), ha.made, ha.unsent rfl⟩
              · intro hid
                exact (h hid).closed
              · intro result q' hd
                apply ih hrest
                intro hid
                exact (h hid).delivered hsuffix hd hid

/-- A row just read: what the call believes is what is stored. -/
structure JustRead (row : LoadedNotice) (q : Sight) : Prop where
  kept : Kept q.row
  same : row.toCargoNotification = q.row
  closed : isTaken row = true → q.closed = true

theorem accepts_deliverThroughOne {ready : Messenger → Bool}
    (hkept : row.id = n → Kept q.row ∧ row.toCargoNotification = q.row)
    (hclosed : row.id = n → isOpen = false → q.closed = true) :
    Accepts (columnsMonitor n digests) (deliverThroughOne row isOpen ready) q (fun _ _ => True) := by
  apply accepts_deliverThrough (List.suffix_refl _)
  intro hid
  obtain ⟨hk, hsame⟩ := hkept hid
  refine ⟨hk, fun m _ => by rw [hsame], by rw [hsame], hclosed hid, fun hf => ?_, fun ht => .inl ?_⟩
  · rw [← hsame]
    exact hf
  · rw [← hsame]
    exact ht

/-- A delivery from a row just read. -/
theorem accepts_deliver {ready : Messenger → Bool} (h : row.id = n → JustRead row q) :
    Accepts (columnsMonitor n digests)
      (canDeliverListing row >>= fun isOpen => deliverThroughOne row isOpen ready) q
      (fun _ _ => True) := by
  rw [accepts_bind]
  apply accepts_canDeliver
  · intro hid
    rw [← (h hid).same]
  · intro hid
    exact (h hid).closed
  · intro isOpen q' hrow hclosed
    apply accepts_deliverThroughOne _ hclosed
    intro hid
    rw [hrow]
    exact ⟨(h hid).kept, (h hid).same⟩

end Through

/-! ### The queue's jobs -/

section Jobs

variable {row : LoadedNotice} {m : Messenger}

/-- The row read is the row stored. -/
theorem accepts_findRow {id : ℕ} {Q : Except Fault (Option LoadedNotice) → Sight → Prop}
    (hkept : Kept q.row) (hnone : ∀ q', q'.row = q.row → Q (.ok none) q')
    (hsome : ∀ row q', q'.row = q.row → q'.now = q.now → (row.id = n → JustRead row q') →
      Q (.ok (some row)) q') :
    Accepts (columnsMonitor n digests) (issue (.findWithListing .deliver id)) q Q := by
  refine accepts_issue trivial (fun found hcurrent => ?_) (fun _ hf => hf.elim)
  show Q (.ok found) (if id = n then { q with closed := found.any isTaken } else q)
  have hrow : (if id = n then { q with closed := found.any isTaken } else q).row = q.row := by
    split <;> rfl
  have hnow : (if id = n then { q with closed := found.any isTaken } else q).now = q.now := by
    split <;> rfl
  cases found with
  | none => exact hnone _ hrow
  | some row =>
      apply hsome row _ hrow hnow
      intro hid
      obtain ⟨hrowId, hsame⟩ := hcurrent row rfl
      have hidn : id = n := hrowId.symm.trans hid
      rw [if_pos hidn]
      exact ⟨hkept, hsame hidn, fun h => h⟩

/-- A messenger given up or skipped, for a reason. -/
theorem accepts_settle {status : NotificationDeliveryStatus} {Q : Except Fault Unit → Sight → Prop}
    (hsent : status ≠ .sent) (hwaits : status ≠ .pending)
    (hkept : row.id = n → Kept q.row) (hpending : row.id = n → q.row.status m = .pending)
    (hwhy : row.id = n → digests = true ∨ Reasoned q m (settledAs status))
    (hQ : ∀ q', (row.id ≠ n → q'.row = q.row) →
      (row.id = n → q'.row = q.row.update m (settledAs status)) → Q (.ok ()) q') :
    Accepts (columnsMonitor n digests) (updateDelivery row.id m (settledAs status)) q Q := by
  apply accepts_change
  · intro hid
    exact ⟨hpending hid, (hkept hid).settle hsent hwaits, hwhy hid⟩
  · apply hQ
    · intro hid
      rw [if_neg hid]
    · intro hid
      rw [if_pos hid]

/-- The others of a notice just sent are skipped. -/
theorem accepts_skipOthers {Q : Except Fault Unit → Sight → Prop}
    (hkept : row.id = n → Kept q.row) (hsent : row.id = n → q.row.status m = .sent)
    (hothers : row.id = n → ∀ x ≠ m, q.row.status x = row.status x)
    (hQ : ∀ q', (row.id ≠ n → q'.row = q.row) → (row.id = n → Kept q'.row) → Q (.ok ()) q') :
    Accepts (columnsMonitor n digests) (skipOthers row m) q Q := by
  have hnodup : (othersPending row m).Nodup := nodup_messengerOrder.filter _
  have hmem : ∀ x ∈ othersPending row m, x ≠ m ∧ row.status x = .pending := by
    intro x hx
    simp only [othersPending, List.mem_filter, decide_eq_true_eq] at hx
    exact hx.2
  refine accepts_forEach (fun rest q' => (row.id ≠ n → q'.row = q.row) ∧ (row.id = n →
    Kept q'.row ∧ q'.row.status m = .sent ∧ ∀ x ∈ rest, q'.row.status x = .pending)) ?_ ?_ ?_
  · rintro x rest q' hsuffix ⟨hother, hown⟩
    have hx := hmem x (hsuffix.subset (by simp))
    have hnot := (List.nodup_cons.mp (hnodup.sublist hsuffix.sublist)).1
    apply accepts_settle (by simp) (by simp) (fun hid => (hown hid).1)
      (fun hid => (hown hid).2.2 x (by simp))
    · intro hid
      refine .inr ⟨fun _ => .inr (.inl (sentSomewhere_iff.mpr ⟨m, (hown hid).2.1⟩)), fun h => ?_⟩
      cases h
    · intro q'' h₁ h₂
      refine ⟨fun hid => (h₁ hid).trans (hother hid), fun hid => ?_⟩
      obtain ⟨hk, hm, hrest⟩ := hown hid
      rw [h₂ hid]
      refine ⟨hk.settle (by simp) (by simp), ?_, ?_⟩
      · rw [status_update_of_ne hx.1.symm]
        exact hm
      · intro y hy
        have hyx : y ≠ x := fun heq => hnot (heq ▸ hy)
        rw [status_update_of_ne hyx]
        exact hrest y (by simp [hy])
  · refine ⟨fun _ => rfl, fun hid => ⟨hkept hid, hsent hid, ?_⟩⟩
    intro x hx
    rw [hothers hid x (hmem x hx).1]
    exact (hmem x hx).2
  · rintro q' ⟨hother, hown⟩
    exact hQ q' hother fun hid => (hown hid).1

theorem accepts_afterQueued {isOpen : Bool} {result : DeliveryResult} {q₀ : Sight}
    (hd : Delivered n row m q₀ result.status q)
    (hsame : row.id = n → row.toCargoNotification = q₀.row) :
    Accepts (columnsMonitor n digests) (afterQueued row m isOpen result) q (fun _ _ => True) := by
  unfold afterQueued
  split
  · trivial
  · rename_i hsent
    rw [accepts_bind]
    rw [hsent] at hd
    apply accepts_skipOthers (fun hid => (hd.own hid).1) (fun hid => (hd.own hid).2.1)
    · intro hid x hx
      rw [CargoNotification.status, (hd.own hid).2.2.2 x hx, ← hsame hid]
      rfl
    · intro q' _ _
      trivial
  · split <;> trivial

theorem accepts_deliverQueued {window id : ℕ} (hkept : Kept q.row) :
    Accepts (columnsMonitor n digests) (deliverQueued window id m) q (fun _ _ => True) := by
  unfold deliverQueued
  rw [accepts_bind]
  apply accepts_clock
  intro now q₁ hview _ hnow₁
  rw [outcome_ok, accepts_bind]
  have hrow₁ : q₁.row = q.row := congrArg Prod.fst hview
  apply accepts_findRow
  · rw [hrow₁]
    exact hkept
  · intro q' _
    trivial
  · intro row q₂ hrow₂ hnow hread
    have hkept₂ : Kept q₂.row := by
      rw [hrow₂, hrow₁]
      exact hkept
    have hsame : row.id = n → row.toCargoNotification = q₂.row := fun hid => (hread hid).same
    rw [outcome_ok]
    dsimp only
    split
    · trivial
    · rename_i hpending
      rw [not_not] at hpending
      have hwaits : row.id = n → q₂.row.status m = .pending := by
        intro hid
        rw [← hsame hid]
        exact hpending
      split
      · rename_i hgone
        rw [accepts_bind]
        apply accepts_settle (by split <;> simp) (by split <;> simp) (fun _ => hkept₂) hwaits
        · intro hid
          right
          cases hs : row.sentSomewhere with
          | true =>
              refine ⟨fun _ => .inr (.inl ?_), fun h => ?_⟩
              · rw [← hsame hid]
                exact hs
              · cases h
          | false =>
              refine ⟨fun h => ?_, fun _ => ⟨now, hnow.trans hnow₁, .inr ?_⟩⟩
              · cases h
              · rcases hgone with h | h
                · rw [hs] at h
                  cases h
                · rw [← hsame hid]
                  exact of_decide_eq_true h
        · intro q' _ _
          trivial
      · rename_i hgo
        have hunsent : row.sentSomewhere = false := by
          cases hs : row.sentSomewhere with
          | false => rfl
          | true => exact absurd (.inl hs) hgo
        rw [accepts_bind]
        apply (keeps_holdForDigest keeps_aside).accepts
        intro held q₃ hview₃
        obtain ⟨hrow₃, hclosed₃⟩ := Prod.mk.inj hview₃
        cases held with
        | error e => trivial
        | ok held =>
            cases held with
            | some outcome => trivial
            | none =>
                rw [outcome_ok, accepts_bind]
                apply accepts_canDeliver
                · intro hid
                  rw [hrow₃, ← hsame hid]
                · intro hid htaken
                  rw [hclosed₃]
                  exact (hread hid).closed htaken
                · intro isOpen q₄ hrow₄ hclosed₄
                  rw [outcome_ok, accepts_bind]
                  have hrow₄₂ : q₄.row = q₂.row := hrow₄.trans hrow₃
                  apply accepts_deliverVia hpending _ hclosed₄
                  · intro result q₅ hd
                    apply accepts_afterQueued hd
                    intro hid
                    rw [hrow₄₂]
                    exact hsame hid
                  · intro hid
                    have hs := hsame hid
                    rw [← hrow₄₂] at hs
                    refine ⟨?_, ?_, ?_, ?_⟩
                    · rw [hrow₄₂]
                      exact hkept₂
                    · rw [← hs]
                    · rw [← hs]
                    · rw [← hs]
                      exact hunsent

/-- The rows a summary holds are the rows stored. -/
def Same (n : ℕ) (rows : List LoadedNotice) (q : Sight) : Prop :=
  ∀ row ∈ rows, row.id = n → row.toCargoNotification = q.row

/-- The rows kept for a summary: stored as they are held, pending here and sent nowhere. -/
def Held (n : ℕ) (m : Messenger) (rows : List LoadedNotice) (q : Sight) : Prop :=
  ∀ row ∈ rows, row.status m = .pending ∧ row.sentSomewhere = false ∧
    (row.id = n → row.toCargoNotification = q.row)

theorem Held.faces {rows : List LoadedNotice} (h : Held n m rows q) (hrow : row ∈ rows)
    (hkept : Kept q.row) (hid : row.id = n) : Faces row m q := by
  obtain ⟨_, hunsent, hsame⟩ := h row hrow
  refine ⟨hkept, ?_, ?_, ?_⟩ <;> rw [← hsame hid]
  exact hunsent

/-- Rows with another id are held whatever happens to this one. -/
theorem Held.rest {rest : List LoadedNotice} {q' : Sight}
    (hdistinct : row.id ∉ rest.map fun row => row.id) (hother : row.id ≠ n → q'.row = q.row)
    (h : Held n m rest q) : Held n m rest q' := by
  intro x hx
  obtain ⟨hpending, hunsent, hsame⟩ := h x hx
  refine ⟨hpending, hunsent, fun hxid => ?_⟩
  rw [hother]
  · exact hsame hxid
  · intro hid
    exact hdistinct (List.mem_map.mpr ⟨x, hx, hxid.trans hid.symm⟩)

theorem distinct_of_suffix {rows rest : List LoadedNotice}
    (hnodup : (rows.map fun row => row.id).Nodup) (hsuffix : row :: rest <:+ rows) :
    row.id ∉ rest.map fun row => row.id := by
  have hsub := hnodup.sublist (hsuffix.sublist.map fun row : LoadedNotice => row.id)
  exact (List.nodup_cons.mp hsub).1

/-- Dropping the notices that are not for a summary any more keeps the row in order. -/
theorem accepts_stillHeld {now : ℕ} {found : List LoadedNotice}
    {Q : Except Fault (List LoadedNotice) → Sight → Prop}
    (hnodup : (found.map fun row => row.id).Nodup) :
    ∀ {q : Sight}, Kept q.row → Same n found q →
      (∀ rows q', rows.Sublist found → Kept q'.row → Held n m rows q' →
        (n ∉ found.map (fun row => row.id) → q'.row = q.row) → Q (.ok rows) q') →
      Accepts (columnsMonitor n true) (stillHeld m now found) q Q := by
  induction found generalizing Q with
  | nil =>
      intro q hkept _ hQ
      exact hQ [] q .slnil hkept (by intro row hrow; simp at hrow) fun _ => rfl
  | cons row rest ih =>
      intro q hkept hsame hQ
      obtain ⟨hdistinct, hrest⟩ := List.nodup_cons.mp hnodup
      have hown := hsame row (by simp)
      have hnotin : n ∉ (row :: rest).map (fun row => row.id) →
          row.id ≠ n ∧ n ∉ rest.map (fun row => row.id) := by
        intro h
        rw [List.map_cons, List.mem_cons, not_or] at h
        exact ⟨fun hid => h.1 hid.symm, h.2⟩
      have hsameRest : Same n rest q := fun x hx => hsame x (by simp [hx])
      unfold stillHeld
      split
      · apply ih hrest hkept hsameRest
        intro rows q' hrows hk hh hout
        exact hQ rows q' (hrows.cons _) hk hh fun h => hout (hnotin h).2
      · rename_i hpending
        rw [not_not] at hpending
        rw [accepts_bind]
        have hdrop : ∀ q', q'.row = q.row → Accepts (columnsMonitor n true) (do
              updateDelivery row.id m (settledAs (if isStale row now then .failed else .skipped))
              stillHeld m now rest) q' Q := by
          intro q' hq'
          rw [accepts_bind]
          apply accepts_settle (by split <;> simp) (by split <;> simp)
          · intro _
            rw [hq']
            exact hkept
          · intro hid
            rw [hq', ← hown hid]
            exact hpending
          · intro _
            exact .inl rfl
          · intro q'' hother hset
            have hk : Kept q''.row := by
              by_cases hid : row.id = n
              · rw [hset hid, hq']
                exact hkept.settle (by split <;> simp) (by split <;> simp)
              · rw [hother hid, hq']
                exact hkept
            apply ih hrest hk
            · intro x hx hxid
              rw [hother, hq']
              · exact hsameRest x hx hxid
              · intro hid
                exact hdistinct (List.mem_map.mpr ⟨x, hx, hxid.trans hid.symm⟩)
            · intro rows q₃ hrows hk₃ hh₃ hout
              apply hQ rows q₃ (hrows.cons _) hk₃ hh₃
              intro h
              rw [hout (hnotin h).2, hother (hnotin h).1, hq']
        unfold isDropped
        split
        · exact hdrop q rfl
        · rename_i hgo
          have hunsent : row.sentSomewhere = false := by
            cases hs : row.sentSomewhere with
            | false => rfl
            | true => exact absurd (.inl hs) hgo
          rw [accepts_bind]
          apply accepts_mayDeliver
          intro isOpen q' hq'
          cases isOpen with
          | false => exact hdrop q' hq'
          | true =>
              show Accepts _ (stillHeld m now rest >>= fun rows => pure (row :: rows)) q' Q
              rw [accepts_bind]
              apply ih hrest (by rw [hq']; exact hkept)
              · intro x hx hxid
                rw [hq']
                exact hsameRest x hx hxid
              · intro rows q'' hrows hk hh hout
                apply hQ (row :: rows) q'' (hrows.cons_cons row) hk
                · intro x hx
                  rcases List.mem_cons.mp hx with rfl | hx
                  · refine ⟨hpending, hunsent, fun hid => ?_⟩
                    rw [hout, hq']
                    · exact hown hid
                    · rwa [← hid]
                  · exact hh x hx
                · intro h
                  rw [hout (hnotin h).2, hq']

/-- A summary this messenger cannot take is handed on. -/
theorem accepts_handOn {rows : List LoadedNotice} {status : NotificationDeliveryStatus}
    (hsent : status ≠ .sent) (hwaits : status ≠ .pending)
    (hnodup : (rows.map fun row => row.id).Nodup) (hkept : Kept q.row) (hheld : Held n m rows q) :
    Accepts (columnsMonitor n true) (handOn rows m status) q (fun _ _ => True) := by
  unfold handOn
  rw [accepts_bind]
  refine accepts_forEach (fun rest q' => Kept q'.row ∧ Held n m rest q') ?_ ⟨hkept, hheld⟩
    (fun q' _ => trivial)
  rintro row rest q' hsuffix ⟨hk, hh⟩
  apply accepts_settle hsent hwaits (fun _ => hk)
  · intro hid
    exact (hh.faces (by simp) hk hid).pending (hh row (by simp)).1
  · intro _
    exact .inl rfl
  · intro q'' hother hset
    constructor
    · by_cases hid : row.id = n
      · rw [hset hid]
        exact hk.settle hsent hwaits
      · rw [hother hid]
        exact hk
    · exact Held.rest (distinct_of_suffix hnodup hsuffix) hother fun x hx => hh x (by simp [hx])

/-- The writes after a summary. -/
theorem accepts_writeDigest {rows : List LoadedNotice} {changes : CargoNotificationDelivery}
    {Q : Except Fault Unit → Sight → Prop} (hsent : changes.status = some .sent)
    (hretry : changes.nextRetryAt = some none) (hattempts : changes.attempts = none)
    (hnodup : (rows.map fun row => row.id).Nodup) (hkept : Kept q.row) (hheld : Held n m rows q)
    (hQ : ∀ q', Kept q'.row → Q (.ok ()) q') :
    Accepts (columnsMonitor n true)
      (.forEach (fun row => do
        updateDelivery row.id m changes
        skipOthers row m) rows) q Q := by
  refine accepts_forEach (fun rest q' => Kept q'.row ∧ Held n m rest q') ?_ ⟨hkept, hheld⟩
    (fun q' hq' => hQ q' hq'.1)
  rintro row rest q' hsuffix ⟨hk, hh⟩
  have hrow : row ∈ row :: rest := by simp
  rw [accepts_bind]
  apply accepts_writeSent (rfl : q'.view = q'.view) (hh row hrow).1 (fun hid => hh.faces hrow hk hid) hsent hretry
    (.inl hattempts)
  intro q'' hd
  rw [outcome_ok]
  apply accepts_skipOthers (fun hid => (hd.own hid).1) (fun hid => (hd.own hid).2.1)
  · intro hid x hx
    rw [CargoNotification.status, (hd.own hid).2.2.2 x hx, ← (hh row hrow).2.2 hid]
    rfl
  · intro q₃ hother hown
    constructor
    · by_cases hid : row.id = n
      · exact hown hid
      · rw [hother hid, hd.other hid]
        exact hk
    · exact Held.rest (distinct_of_suffix hnodup hsuffix)
        (fun hid => (hother hid).trans (hd.other hid)) fun x hx => hh x (by simp [hx])

theorem Held.congr {rows : List LoadedNotice} {q' : Sight} (h : Held n m rows q)
    (hrow : q'.row = q.row) : Held n m rows q' := by
  intro x hx
  rw [hrow]
  exact h x hx

theorem accepts_sendDigest {window userId now : ℕ} {rows : List LoadedNotice}
    {Q : Except Fault Bool → Sight → Prop} (hnodup : (rows.map fun row => row.id).Nodup)
    (hkept : Kept q.row) (hheld : Held n m rows q) (htrue : ∀ q', Kept q'.row → Q (.ok true) q')
    (hfalse : ∀ q', q'.row = q.row → Q (.ok false) q')
    (herr : ∀ e q', q'.row = q.row → Q (.error e) q') :
    Accepts (columnsMonitor n true) (sendDigest window userId m now rows) q Q := by
  unfold sendDigest
  rw [accepts_bind]
  apply accepts_blind (c := .findLink userId m) rfl not_false
  intro link q₁ h₁
  have hrow₁ : q₁.row = q.row := congrArg Prod.fst h₁
  cases link with
  | none => exact hfalse q₁ hrow₁
  | some chat =>
      rw [outcome_ok, accepts_bind]
      apply accepts_issue trivial
      · intro messageId _
        rw [outcome_ok, accepts_bind]
        apply accepts_writeDigest rfl rfl rfl hnodup (hrow₁ ▸ hkept) (hheld.congr hrow₁)
        intro q₂ hk₂
        rw [outcome_ok, accepts_bind]
        cases decide (window ≠ 0) with
        | false => exact htrue q₂ hk₂
        | true =>
            apply accepts_blind (c := .set _ _) rfl not_false
            intro _ q₃ h₃
            apply htrue q₃
            rw [show q₃.row = q₂.row from congrArg Prod.fst h₃]
            exact hk₂
      · intro e _
        apply herr
        have hsend := (blind_seen (c := .send m chat (rows.map fun row => row.id)) rfl n true q₁).2
        exact (congrArg Prod.fst (hsend _)).trans hrow₁

theorem accepts_findMany {ids : List ℕ} {Q : Except Fault (List LoadedNotice) → Sight → Prop}
    (hQ : ∀ found : List LoadedNotice, (found.map fun row => row.id).Nodup → Same n found q →
      Q (.ok found) q) :
    Accepts (columnsMonitor n true) (NoticeService.findManyWithListing ids) q Q := by
  unfold NoticeService.findManyWithListing
  split
  · exact hQ [] (by simp) (by intro row hrow; simp at hrow)
  · refine accepts_issue rfl (fun found hcurrent => ?_) (fun _ hf => hf.elim)
    exact hQ found hcurrent.1 hcurrent.2

theorem accepts_deliverDigest {window userId : ℕ} (hkept : Kept q.row) :
    Accepts (columnsMonitor n true) (deliverDigest window userId m) q (fun _ _ => True) := by
  unfold deliverDigest
  rw [accepts_bind]
  apply accepts_clock
  intro now q₁ h₁ _ _
  rw [outcome_ok, accepts_bind]
  have htake : Keeps (columnsMonitor n true) Sight.view (takeHeld userId m) :=
    keeps_bind (keeps_issue rfl) fun _ => keeps_bind (keeps_issue rfl) fun _ =>
      keeps_bind (keeps_runIf (keeps_issue rfl)) fun _ => keeps_pure _
  apply htake.accepts
  intro taken q₂ h₂
  have hrow₂ : q₂.row = q.row := congrArg Prod.fst (h₂.trans h₁)
  cases taken with
  | error e => trivial
  | ok ids =>
      rw [outcome_ok, accepts_bind]
      apply accepts_findMany
      intro found hnodup hsame
      rw [outcome_ok, accepts_bind]
      apply accepts_stillHeld hnodup (by rw [hrow₂]; exact hkept) hsame
      intro rows q₃ hrows hk hheld _
      have hrowsNodup := hnodup.sublist (hrows.map fun row : LoadedNotice => row.id)
      rw [outcome_ok]
      split
      · trivial
      · trivial
      · rw [accepts_bind, accepts_attempt]
        apply accepts_sendDigest hrowsNodup hk hheld
        · intro q' _
          trivial
        · intro q' hview
          exact accepts_handOn (by simp) (by simp) hrowsNodup (hview ▸ hk) (hheld.congr hview)
        · intro e q' hview
          rw [outcome_ok, afterDigest]
          split
          · exact accepts_handOn (by simp) (by simp) hrowsNodup (hview ▸ hk) (hheld.congr hview)
          · apply (keeps_holdAgain keeps_aside).accepts
            intro _ _ _
            trivial

end Jobs

end Calls

end TransportBackend.NoticeColumns
