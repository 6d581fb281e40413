import TransportBackend.MonitoredProgram
import TransportBackend.NoticeService

/-!
# Each call sends a notice once

The monitor of one notice watches a call: the notice is read once, sent only when it was read
unsent, and a send is written down before anything else is written.  Every call of the delivery
queue, the retry worker and the announcements passes it (`accepts_noticeProgram`), whatever rows it
reads and however its sends end:

* `accepts_deliverThrough` — the loop over the messengers sends through one of them at most;
* `accepts_sweep` — the rows of a sweep are handled from what was read at its start;
* `accepts_writeDigest` — after a summary every notice in it is written down in its turn.
-/

namespace TransportBackend.NoticeMonitor

open TransportBackend.AtomicProgram
open TransportBackend.InterleavedRun
open TransportBackend.MonitoredProgram
open TransportBackend.KeyedTable
open TransportBackend.NoticeStore
open TransportBackend.NoticeService
open TransportBackend.TripStore (CargoListing)

/-! ### The machine -/

/-- What happens outside the calls: time passes, a load changes. -/
inductive Passing where
  | wait (ms : ℕ)
  | listing (l : CargoListing)

def passing : Passing → Store → Store
  | .wait ms, s => { s with clock := s.clock + ms }
  | .listing l, s => { s with listings := s.listings.put l }

/-- Calls over the store of the notices, every command answered by a world of its own. -/
def deliveryMachine {Call : Type} (program : Call → Delivery Unit) : Machine Resp Fault Store where
  Choice := World
  Outside := Passing
  Call := Call
  exec w c s := some (exec w c s)
  outside o s := some (passing o s)
  begin call s := some (program call, s)

/-- The calls that run side by side. -/
inductive NoticeCall where
  | announce (listingId : ℕ) (recipients : List ℕ)
  | consume (m : Messenger)
  | tick

def noticeProgram (window : ℕ) : NoticeCall → Delivery Unit
  | .announce listingId recipients => sendToDrivers listingId recipients
  | .consume m => consume window m
  | .tick => tick

/-! ### Programs that stay beside the rows -/

section Aside

variable {State γ : Type} {μ : Monitor Resp State} {f : State → γ}

/-- One command, under any monitor. -/
theorem accepts_issue {State : Type} {μ : Monitor Resp State} {q : State} {c : Cmd}
    {Q : Except Fault (Answer c) → State → Prop} (hallowed : μ.allowed q c)
    (hok : ∀ a, μ.answers q c (.ok a) → Q (.ok a) (μ.next q c (.ok a)))
    (herr : ∀ e, μ.answers q c (.error e) → Q (.error e) (μ.next q c (.error e))) :
    Accepts μ (issue c) q Q := by
  refine ⟨hallowed, ?_⟩
  intro r hr
  cases r with
  | ok a => exact hok a hr
  | error e => exact herr e hr

/-- A command on the clock, Redis, the queue or a message already sent. -/
def aside : Cmd → Bool
  | .findWithListing .deliver _ => false
  | .findManyWithListing _ => false
  | .findDueRetries _ _ _ => false
  | .updateDelivery _ _ _ => false
  | .failExpired _ _ => false
  | .scheduleRetry _ _ => false
  | .canReceiveAnnouncement _ _ _ => false
  | .send _ _ _ => false
  | _ => true

theorem keeps_runIf {b : Bool} {p : Delivery Unit} (h : Keeps μ f p) : Keeps μ f (runIf b p) := by
  cases b with
  | true => exact h
  | false => exact keeps_ret ()

/-- The commands that edit a message already sent. -/
def edits : Cmd → Bool
  | .dateNow => true
  | .findByMessage _ _ => true
  | .outOfRequests _ => true
  | .editMessage _ _ => true
  | .react _ _ => true
  | _ => false

theorem aside_of_edits {c : Cmd} (h : edits c = true) : aside c = true := by
  cases c <;> first | rfl | cases h

theorem keeps_editMessage (hissue : ∀ c, edits c = true → Keeps μ f (issue c)) (m : Messenger)
    (row : LoadedNotice) : Keeps μ f (if m = .whatsapp then editWhatsapp row else editBot m row) := by
  split
  · unfold editWhatsapp
    split
    · exact keeps_pure _
    · refine keeps_bind (hissue _ rfl) fun _ => keeps_bind (hissue _ rfl) fun _ => ?_
      split
      · exact hissue _ rfl
      · exact keeps_runIf (hissue _ rfl)
  · unfold editBot
    split
    · exact keeps_pure _
    · refine keeps_bind (hissue _ rfl) fun _ => ?_
      split
      · exact hissue _ rfl
      · refine keeps_bind (keeps_runIf (keeps_bind ?_ fun _ => keeps_pure _)) fun _ => ?_
        · exact hissue _ rfl
        · exact hissue _ rfl

variable (hissue : ∀ c, aside c = true → Keeps μ f (issue c))

include hissue

theorem keeps_holdForDigest {window : ℕ} {row : LoadedNotice} {m : Messenger} :
    Keeps μ f (holdForDigest window row m) := by
  have hhold : Keeps μ f (hold window row m) := by
    unfold hold
    refine keeps_bind (hissue _ rfl) fun alone => ?_
    split
    · exact keeps_pure _
    · refine keeps_bind (hissue _ rfl) fun _ => keeps_bind (hissue _ rfl) fun _ =>
        keeps_bind (hissue _ rfl) fun first => ?_
      split
      · exact keeps_bind (hissue _ rfl) fun _ => keeps_bind (hissue _ rfl) fun _ => keeps_pure _
      · exact keeps_pure _
  unfold holdForDigest
  split
  · exact keeps_pure _
  · refine keeps_bind (keeps_attempt hhold) fun out => ?_
    split <;> exact keeps_pure _

theorem keeps_holdAgain {userId : ℕ} {m : Messenger} {now : ℕ} {rows : List LoadedNotice}
    {wait : Option ℕ} : Keeps μ f (holdAgain userId m now rows wait) := by
  unfold holdAgain
  exact keeps_bind (keeps_forEach fun _ _ => hissue _ rfl) fun _ =>
    keeps_bind (hissue _ rfl) fun _ => keeps_bind (hissue _ rfl) fun _ => keeps_pure _

theorem keeps_editQueued {id : ℕ} {m : Messenger} : Keeps μ f (editQueued id m) := by
  unfold editQueued
  refine keeps_bind (hissue _ rfl) fun found => ?_
  split
  · exact keeps_pure _
  · rename_i row
    split
    · exact keeps_pure _
    · have hedit := keeps_editMessage (fun c hc => hissue c (aside_of_edits hc)) m row
      refine keeps_bind (keeps_attempt hedit) fun out => ?_
      split
      · exact keeps_pure _
      · split
        · exact keeps_bind (hissue _ rfl) fun _ => keeps_pure _
        · exact keeps_pure _

theorem keeps_followOrRequeue {message job : DeliveryJob} {outcome : QueuedOutcome} :
    Keeps μ f (followOrRequeue message job outcome) := by
  have hlater : ∀ job time, Keeps μ f (publishLater job time) :=
    fun _ _ => keeps_bind (hissue _ rfl) fun _ => hissue _ rfl
  have hfollow : Keeps μ f (follow job outcome) := by
    cases outcome with
    | done => exact keeps_pure _
    | retry time pause => exact hlater _ _
    | next m => exact hissue _ rfl
    | digest userId time pause => exact hlater _ _
    | jobs jobs => exact keeps_forEach fun _ _ => hissue _ rfl
  refine keeps_bind (keeps_attempt hfollow) fun out => ?_
  split
  · exact keeps_pure _
  · exact hissue _ rfl

/-- What a job does after its work is done, or failed. -/
theorem accepts_handle_of_work {window : ℕ} {job : DeliveryJob} {q : State} {P : γ → Prop}
    (h : Accepts μ (work window job) q (fun _ q' => P (f q'))) :
    Accepts μ (handle window job) q (fun _ q' => P (f q')) := by
  unfold handle
  rw [accepts_bind, accepts_attempt]
  apply accepts_mono h
  intro out q' hP
  rw [outcome_ok]
  -- nothing after the work changes the part kept
  have hend : ∀ {p : Delivery Unit}, Keeps μ f p → Accepts μ p q' (fun _ q'' => P (f q'')) := by
    intro p hp
    apply hp.accepts
    intro _ q'' hq''
    rw [hq'']
    exact hP
  split
  · exact hend (keeps_followOrRequeue hissue)
  · split
    · exact hend (hissue _ rfl)
    · exact hend (keeps_bind (hissue _ rfl) fun _ => keeps_followOrRequeue hissue)

end Aside

/-! ### The monitor of a notice -/

/-- What a call has done with one notice: not read it, read it unsent, sent it without having written
so, or known it sent through a messenger. -/
inductive Phase where
  | unread
  | unsent
  | owed (m : Messenger)
  | known (m : Messenger)

/-- A row read: known as sent, or unsent. -/
def phaseOf (row : CargoNotification) : Phase :=
  match messengerOrder.find? fun m => row.status m = .sent with
  | some m => .known m
  | none => .unsent

/-- Where a read leads: to the notice's row when it is among the rows. -/
def phaseIn (n : ℕ) (q : Phase) (rows : List LoadedNotice) : Phase :=
  match rows.find? (·.id = n) with
  | some row => phaseOf row.toCargoNotification
  | none => q

/-- The writes a phase allows: SENT where it is owed and nothing else, elsewhere anything but SENT,
and never over the messenger known to have sent it. -/
def mayWrite (q : Phase) (m : Messenger) (changes : CargoNotificationDelivery) : Prop :=
  match q with
  | .unread => False
  | .unsent => changes.status ≠ some .sent
  | .owed m' => m = m' ∧ changes.status = some .sent
  | .known m' => m ≠ m' ∧ changes.status ≠ some .sent

/-- What a write leads to. -/
def written (q : Phase) : Phase :=
  match q with
  | .owed m => .known m
  | q => q

/-- A read of several rows returns no row twice. -/
def Sound : (c : Cmd) → Answer c → Prop
  | .findManyWithListing _, rows => (List.map (fun row : LoadedNotice => row.id) rows).Nodup
  | .findDueRetries _ _ _, rows => (List.map (fun row : LoadedNotice => row.id) rows).Nodup
  | _, _ => True

/-- What is known of a response, whatever the other calls do. -/
def Responds (c : Cmd) : Resp c → Prop
  | .ok a => Sound c a
  | .error _ => Fallible c

/-- The monitor of notice `n`: it is read once, sent only unsent, and the send is written down
before anything else is written. -/
def noticeMonitor (n : ℕ) : Monitor Resp Phase where
  allowed q
    | .findWithListing .deliver _ => q = .unread
    | .findManyWithListing _ => q = .unread
    | .findDueRetries _ _ _ => q = .unread
    | .updateDelivery id m changes => id = n → mayWrite q m changes
    | .send _ _ ids => n ∈ ids → q = .unsent
    | _ => True
  answers _ := Responds
  next q
    | .findWithListing .deliver _, .ok row => phaseIn n q row.toList
    | .findManyWithListing _, .ok rows => phaseIn n q rows
    | .findDueRetries _ _ _, .ok rows => phaseIn n q rows
    | .updateDelivery id _ _, _ => if id = n then written q else q
    | .send m _ ids, .ok _ => if n ∈ ids then .owed m else q
    | _, _ => q

/-! ### Each call alone -/

section Calls

variable {n : ℕ} {q : Phase}

/-- The monitor does not see this command. -/
def silent : Cmd → Bool
  | .findWithListing .deliver _ => false
  | .findManyWithListing _ => false
  | .findDueRetries _ _ _ => false
  | .updateDelivery _ _ _ => false
  | .send _ _ _ => false
  | _ => true

theorem silent_seen {c : Cmd} (h : silent c = true) (n : ℕ) (q : Phase) :
    (noticeMonitor n).allowed q c ∧ ∀ r, (noticeMonitor n).next q c r = q := by
  cases c with
  | findWithListing use id =>
      cases use with
      | deliver => cases h
      | edit => exact ⟨trivial, fun _ => rfl⟩
  | findManyWithListing ids => cases h
  | findDueRetries now after take => cases h
  | updateDelivery id m changes => cases h
  | send m chat ids => cases h
  | _ => exact ⟨trivial, fun _ => rfl⟩

theorem unseen_issue {c : Cmd} (h : silent c = true) :
    Unseen (noticeMonitor n) (issue c) := by
  intro q
  obtain ⟨hallowed, hnext⟩ := silent_seen h n q
  exact accepts_issue hallowed (fun a _ => hnext _) (fun e _ => hnext _)

theorem unseen_aside (c : Cmd) (h : aside c = true) : Unseen (noticeMonitor n) (issue c) := by
  apply unseen_issue
  cases c with
  | findWithListing use id => cases use <;> first | rfl | cases h
  | failExpired m before => rfl
  | _ => first | rfl | cases h

/-- A silent command that cannot throw. -/
theorem accepts_silent {c : Cmd} {Q : Except Fault (Answer c) → Phase → Prop}
    (h : silent c = true) (hsafe : ¬Fallible c) (hQ : ∀ a, Q (.ok a) q) :
    Accepts (noticeMonitor n) (issue c) q Q := by
  obtain ⟨hallowed, hnext⟩ := silent_seen h n q
  refine accepts_issue hallowed (fun a _ => ?_) (fun _ hf => absurd hf hsafe)
  rw [hnext]
  exact hQ a

theorem accepts_dateNow {Q : Except Fault ℕ → Phase → Prop} (hQ : ∀ t, Q (.ok t) q) :
    Accepts (noticeMonitor n) dateNow q Q := accepts_silent rfl not_false hQ

theorem unseen_dateNow : Unseen (noticeMonitor n) dateNow := unseen_issue rfl

theorem accepts_canDeliverListing {row : LoadedNotice} {Q : Except Fault Bool → Phase → Prop}
    (hQ : ∀ b, Q (.ok b) q) :
    Accepts (noticeMonitor n) (canDeliverListing row) q Q := by
  unfold canDeliverListing
  split
  · exact hQ true
  · split
    · exact hQ false
    · exact accepts_silent rfl not_false hQ

theorem accepts_linkOf {row : LoadedNotice} {m : Messenger} {isOpen : Bool}
    {Q : Except Fault (Option ℕ) → Phase → Prop} (hQ : ∀ l, Q (.ok l) q) :
    Accepts (noticeMonitor n) (linkOf row m isOpen) q Q := by
  unfold linkOf
  split
  · exact accepts_silent rfl not_false hQ
  · exact hQ none

/-- The phase after a call is through with the notice: read, and nothing owed. -/
def Phase.Settled (q : Phase) : Prop := q = .unsent ∨ ∃ m, q = .known m

theorem accepts_update {id : ℕ} {m : Messenger} {changes : CargoNotificationDelivery}
    {Q : Except Fault Unit → Phase → Prop} (hmay : id = n → mayWrite q m changes)
    (hQ : Q (.ok ()) (if id = n then written q else q)) :
    Accepts (noticeMonitor n) (updateDelivery id m changes) q Q :=
  accepts_issue hmay (fun _ _ => hQ) (fun _ hf => hf.elim)

/-- A write of anything but SENT, where the phase allows it, changes no phase. -/
theorem accepts_settle {id : ℕ} {m : Messenger} {changes : CargoNotificationDelivery}
    {Q : Except Fault Unit → Phase → Prop}
    (hstatus : changes.status ≠ some .sent)
    (hq : id = n → q = .unsent ∨ ∃ m', q = .known m' ∧ m ≠ m') (hQ : Q (.ok ()) q) :
    Accepts (noticeMonitor n) (updateDelivery id m changes) q Q := by
  have hsame : (if id = n then written q else q) = q := by
    split
    · rename_i hid
      rcases hq hid with rfl | ⟨m', rfl, _⟩ <;> rfl
    · rfl
  apply accepts_update
  · intro hid
    rcases hq hid with rfl | ⟨m', rfl, hne⟩
    · exact hstatus
    · exact ⟨hne, hstatus⟩
  · rw [hsame]
    exact hQ

/-- Where a delivery through `m` leads. -/
def delivered (n : ℕ) (row : LoadedNotice) (m : Messenger) (q : Phase)
    (status : NotificationDeliveryStatus) : Phase :=
  if row.id = n ∧ status = .sent then .known m else q

theorem delivered_unsent {row : LoadedNotice} {m : Messenger} {status : NotificationDeliveryStatus}
    (h : status ≠ .sent) : delivered n row m q status = q := if_neg fun hc => h hc.2

theorem accepts_skipDelivery {row : LoadedNotice} {m : Messenger}
    {Q : Except Fault DeliveryResult → Phase → Prop} (hq : row.id = n → q = .unsent)
    (hQ : ∀ result, Q (.ok result) (delivered n row m q result.status)) :
    Accepts (noticeMonitor n) (skipDelivery row m) q Q := by
  unfold skipDelivery
  rw [accepts_bind]
  apply accepts_settle (by simp [settledAs]) (fun hid => .inl (hq hid))
  have hend := hQ { status := .skipped }
  rwa [delivered_unsent (by simp)] at hend

theorem accepts_deliveryFailed {row : LoadedNotice} {m : Messenger} {attempts : ℕ}
    {retryAt : Option ℕ} {Q : Except Fault DeliveryResult → Phase → Prop}
    (hq : row.id = n → q = .unsent)
    (hQ : ∀ result, Q (.ok result) (delivered n row m q result.status)) :
    Accepts (noticeMonitor n) (deliveryFailed row m attempts retryAt) q Q := by
  unfold deliveryFailed
  have hstatus : ∀ {b : Bool}, (if b then NotificationDeliveryStatus.pending else .failed) ≠ .sent := by
    intro b
    cases b <;> simp
  rw [accepts_bind]
  apply accepts_settle (by simp [hstatus]) (fun hid => .inl (hq hid))
  have hend := hQ { status := if retryAt.isSome then .pending else .failed, retryAt := retryAt }
  rwa [delivered_unsent hstatus] at hend

theorem accepts_botFailed {row : LoadedNotice} {m : Messenger} {e : Fault}
    {Q : Except Fault DeliveryResult → Phase → Prop} (hq : row.id = n → q = .unsent)
    (hQ : ∀ result, Q (.ok result) (delivered n row m q result.status)) :
    Accepts (noticeMonitor n) (botFailed row m e) q Q := by
  unfold botFailed
  rw [accepts_bind]
  apply accepts_dateNow
  intro now
  rw [outcome_ok]
  split
  · rename_i wait _
    rw [accepts_bind]
    apply accepts_settle (by simp) (fun hid => .inl (hq hid))
    have hend := hQ { status := .pending, retryAt := some (now + wait), pauseMs := some wait }
    rwa [delivered_unsent (by simp)] at hend
  · exact accepts_deliveryFailed hq hQ

/-- A send carrying one notice. -/
theorem accepts_send {row : LoadedNotice} {m : Messenger} {chat : ℕ}
    {Q : Except Fault ℕ → Phase → Prop} (hq : row.id = n → q = .unsent)
    (hok : ∀ messageId, Q (.ok messageId) (if row.id = n then .owed m else q))
    (herr : ∀ e, Q (.error e) q) :
    Accepts (noticeMonitor n) (issue (.send m chat [row.id])) q Q := by
  have hmem : n ∈ [row.id] ↔ row.id = n := by rw [List.mem_singleton, eq_comm]
  apply accepts_issue
  · intro hin
    exact hq (hmem.mp hin)
  · intro messageId _
    show Q (.ok messageId) (if n ∈ [row.id] then .owed m else q)
    simp only [hmem]
    exact hok messageId
  · intro e _
    exact herr e

/-- What was sent is written down. -/
theorem accepts_writeSent {row : LoadedNotice} {m : Messenger} {changes : CargoNotificationDelivery}
    {Q : Except Fault Unit → Phase → Prop} (hsent : changes.status = some .sent)
    (hQ : Q (.ok ()) (delivered n row m q .sent)) :
    Accepts (noticeMonitor n) (updateDelivery row.id m changes)
      (if row.id = n then .owed m else q) Q := by
  by_cases hid : row.id = n
  · rw [if_pos hid]
    apply accepts_update
    · intro _
      exact ⟨rfl, hsent⟩
    · rw [if_pos hid]
      rwa [delivered, if_pos ⟨hid, rfl⟩] at hQ
  · rw [if_neg hid]
    apply accepts_update
    · intro h
      exact absurd h hid
    · rw [if_neg hid]
      rwa [delivered, if_neg fun hc => hid hc.1] at hQ

theorem accepts_sendBot {row : LoadedNotice} {m : Messenger} {chat : ℕ}
    {Q : Except Fault Unit → Phase → Prop} (hq : row.id = n → q = .unsent)
    (hok : Q (.ok ()) (delivered n row m q .sent)) (herr : ∀ e, Q (.error e) q) :
    Accepts (noticeMonitor n) (sendBot row m chat) q Q := by
  unfold sendBot
  rw [accepts_bind]
  apply Unseen.accepts (keeps_runIf (unseen_issue rfl))
  intro out
  cases out with
  | error e => exact herr e
  | ok _ =>
      rw [outcome_ok, accepts_bind]
      apply accepts_silent (c := .outOfRequests row.userId) rfl not_false
      intro _
      rw [outcome_ok, accepts_bind]
      apply accepts_send hq
      · intro messageId
        exact accepts_writeSent rfl hok
      · exact herr

theorem accepts_sendWhatsapp {row : LoadedNotice} {jid : ℕ}
    {Q : Except Fault Unit → Phase → Prop} (hq : row.id = n → q = .unsent)
    (hok : Q (.ok ()) (delivered n row .whatsapp q .sent)) (herr : ∀ e, Q (.error e) q) :
    Accepts (noticeMonitor n) (sendWhatsapp row jid) q Q := by
  unfold sendWhatsapp
  rw [accepts_bind]
  apply Unseen.accepts (keeps_runIf (unseen_issue rfl))
  intro out
  cases out with
  | error e => exact herr e
  | ok _ =>
      rw [outcome_ok, accepts_bind]
      apply accepts_send hq
      · intro key
        rw [outcome_ok, accepts_bind]
        apply accepts_dateNow
        intro now
        rw [outcome_ok, accepts_bind]
        apply accepts_writeSent rfl
        exact accepts_silent rfl not_false fun _ => hok
      · exact herr

/-- A delivery through one messenger sends the notice once at most, and only when it says so. -/
theorem accepts_deliverVia {row : LoadedNotice} {m : Messenger} {isOpen : Bool}
    {Q : Except Fault DeliveryResult → Phase → Prop} (hpending : row.status m = .pending)
    (hq : row.id = n → q = .unsent)
    (hQ : ∀ result, Q (.ok result) (delivered n row m q result.status)) :
    Accepts (noticeMonitor n) (deliverVia m row isOpen) q Q := by
  unfold deliverVia
  split
  · rename_i hm
    subst hm
    unfold deliverWhatsapp
    rw [if_neg (by simp [hpending]), accepts_bind]
    apply accepts_linkOf
    intro link
    cases link with
    | none => exact accepts_skipDelivery hq hQ
    | some jid =>
        rw [outcome_ok, accepts_bind, accepts_attempt]
        apply accepts_sendWhatsapp hq
        · exact hQ { status := .sent }
        · intro e
          rw [outcome_ok, accepts_bind]
          apply accepts_dateNow
          intro now
          exact accepts_deliveryFailed hq hQ
  · unfold deliverBot
    rw [if_neg (by simp [hpending]), accepts_bind]
    apply accepts_linkOf
    intro link
    cases link with
    | none => exact accepts_skipDelivery hq hQ
    | some chat =>
        rw [outcome_ok, accepts_bind, accepts_attempt]
        apply accepts_sendBot hq
        · rw [outcome_ok, accepts_bind]
          exact accepts_silent rfl not_false fun _ => hQ { status := .sent }
        · intro e
          exact accepts_botFailed hq hQ

/-- The loop of `deliverThroughOne`: what it still may write is not where the notice was sent. -/
theorem accepts_deliverThrough {row : LoadedNotice} {isOpen : Bool} {ready : Messenger → Bool}
    {Q : Except Fault Unit → Phase → Prop} {ms : List Messenger} (hnodup : ms.Nodup)
    (hQ : ∀ q', (row.id ≠ n → q' = q) → (row.id = n → q'.Settled) → Q (.ok ()) q') :
    ∀ {taken : Bool} {q' : Phase}, (row.id ≠ n → q' = q) →
      (row.id = n → q' = .unsent ∨ (taken = true ∧ ∃ m', q' = .known m' ∧
        ∀ m ∈ ms, row.status m = .pending → m ≠ m')) →
      Accepts (noticeMonitor n) (deliverThrough row isOpen ready taken ms) q' Q := by
  induction ms with
  | nil =>
      intro taken q' hother hown
      apply hQ q' hother
      intro hid
      rcases hown hid with h | ⟨_, m', h, _⟩
      · exact .inl h
      · exact .inr ⟨m', h⟩
  | cons m ms ih =>
      intro taken q' hother hown
      obtain ⟨hm, hms⟩ := List.nodup_cons.mp hnodup
      have hrest : row.id = n → q' = .unsent ∨ (True ∧ ∃ m', q' = .known m' ∧
          ∀ m ∈ ms, row.status m = .pending → m ≠ m') := by
        intro hid
        rcases hown hid with h | ⟨_, m', h, hne⟩
        · exact .inl h
        · exact .inr ⟨trivial, m', h, fun x hx => hne x (by simp [hx])⟩
      cases taken with
      | true =>
          show Accepts _ (runIf _ _ >>= fun _ => deliverThrough row isOpen ready true ms) q' Q
          rw [accepts_bind]
          have hgo : Accepts (noticeMonitor n) (deliverThrough row isOpen ready true ms)
              q' Q := ih hms hother fun hid => (hrest hid).imp_right fun h => ⟨rfl, h.2⟩
          by_cases hpending : row.status m = .pending
          · rw [runIf, if_pos (by simp [hpending])]
            apply accepts_settle (by simp [settledAs]) _ hgo
            intro hid
            rcases hown hid with h | ⟨_, m', h, hne⟩
            · exact .inl h
            · exact .inr ⟨m', h, hne m (by simp) hpending⟩
          · rw [runIf, if_neg (by simp [hpending])]
            exact hgo
      | false =>
          -- nothing is sent yet, so the phase is still `unsent`
          have hunsent : row.id = n → q' = .unsent := by
            intro hid
            rcases hown hid with h | ⟨h, _⟩
            · exact h
            · cases h
          unfold deliverThrough
          split
          · exact ih hms hother fun hid => .inl (hunsent hid)
          · rename_i hpending
            split
            · exact ih hms hother fun hid => .inl (hunsent hid)
            · rw [accepts_bind]
              apply accepts_deliverVia (not_not.mp hpending) hunsent
              intro result
              apply ih hms
              · intro hid
                rw [delivered, if_neg fun hc => hid hc.1]
                exact hother hid
              · intro hid
                by_cases hsent : result.status = .sent
                · refine .inr ⟨by simp [hsent], m, if_pos ⟨hid, hsent⟩, ?_⟩
                  intro x hx _ hxm
                  exact hm (hxm ▸ hx)
                · rw [delivered_unsent hsent]
                  exact .inl (hunsent hid)

theorem phaseOf_unsent {row : CargoNotification} (h : row.sentSomewhere = false) :
    phaseOf row = .unsent := by
  have hnone : (messengerOrder.find? fun m => row.status m = .sent) = none := by
    rw [List.find?_eq_none]
    intro m hm
    rw [CargoNotification.sentSomewhere, List.any_eq_false] at h
    exact h m hm
  rw [phaseOf, hnone]

theorem phaseOf_known {row : CargoNotification} (h : row.sentSomewhere = true) :
    ∃ m, phaseOf row = .known m ∧ row.status m = .sent := by
  rw [CargoNotification.sentSomewhere, List.any_eq_true] at h
  obtain ⟨m, hm⟩ := Option.isSome_iff_exists.mp (List.find?_isSome.mpr h)
  refine ⟨m, ?_, by simpa using List.find?_some hm⟩
  rw [phaseOf, hm]

theorem phaseOf_settled (row : CargoNotification) : (phaseOf row).Settled := by
  cases h : row.sentSomewhere with
  | false => exact .inl (phaseOf_unsent h)
  | true =>
      obtain ⟨m, hm, _⟩ := phaseOf_known h
      exact .inr ⟨m, hm⟩

theorem accepts_deliverThroughOne {row : LoadedNotice} {isOpen : Bool} {ready : Messenger → Bool}
    {Q : Except Fault Unit → Phase → Prop}
    (hq : row.id = n → q = phaseOf row.toCargoNotification)
    (hQ : ∀ q', (row.id ≠ n → q' = q) → (row.id = n → q'.Settled) → Q (.ok ()) q') :
    Accepts (noticeMonitor n) (deliverThroughOne row isOpen ready) q Q := by
  apply accepts_deliverThrough nodup_messengerOrder hQ (fun _ => rfl)
  intro hid
  rw [hq hid]
  cases h : row.sentSomewhere with
  | false => exact .inl (phaseOf_unsent h)
  | true =>
      obtain ⟨m', hm', hsent⟩ := phaseOf_known h
      refine .inr ⟨rfl, m', hm', ?_⟩
      intro m _ hpending hmm
      rw [hmm, hsent] at hpending
      cases hpending

theorem accepts_retryDelivery {row : LoadedNotice} {now : ℕ} {Q : Except Fault Unit → Phase → Prop}
    (hq : row.id = n → q = phaseOf row.toCargoNotification)
    (hQ : ∀ q', (row.id ≠ n → q' = q) → (row.id = n → q'.Settled) → Q (.ok ()) q') :
    Accepts (noticeMonitor n) (retryDelivery row now) q Q := by
  unfold retryDelivery
  rw [accepts_bind]
  apply accepts_canDeliverListing
  intro isOpen
  exact accepts_deliverThroughOne hq hQ

/-- Nothing is owed. -/
def Phase.Clear (q : Phase) : Prop := ∀ m, q ≠ .owed m

theorem Phase.Settled.clear (h : q.Settled) : q.Clear := by
  intro m hm
  rcases h with h | ⟨m', h⟩
  · rw [h] at hm
    cases hm
  · rw [h] at hm
    cases hm

/-- The rows a call holds and the phase agree: the row of the notice, if it is among them, is what
the phase says. -/
def Holds (n : ℕ) (rows : List LoadedNotice) (q : Phase) : Prop :=
  ∀ row ∈ rows, row.id = n → q = phaseOf row.toCargoNotification

theorem holds_phaseIn {rows : List LoadedNotice}
    (hnodup : (rows.map fun row => row.id).Nodup) : Holds n rows (phaseIn n q rows) := by
  intro row hrow hid
  have hfind : rows.find? (fun x => x.id = n) = some row := by
    rw [← hid]
    exact Table.find?_of_mem hnodup hrow
  rw [phaseIn, hfind]

theorem clear_phaseIn {rows : List LoadedNotice} (hq : q.Clear) : (phaseIn n q rows).Clear := by
  unfold phaseIn
  split
  · exact (phaseOf_settled _).clear
  · exact hq

theorem unread_clear : Phase.unread.Clear := by
  intro m h
  cases h

/-- A call ends with nothing owed. -/
def Ends {α : Type} (_ : Except Fault α) (q : Phase) : Prop := q.Clear

theorem accepts_sweep :
    Accepts (noticeMonitor n) sweep .unread Ends := by
  unfold sweep
  rw [accepts_bind]
  apply accepts_dateNow
  intro now
  rw [outcome_ok, accepts_bind]
  have hfail : Unseen (noticeMonitor n)
      (failExpiredPending (now - deliveryRetryWindowMs)) :=
    keeps_forEach fun _ _ => unseen_issue rfl
  apply hfail.accepts
  intro out
  cases out with
  | error e => exact unread_clear
  | ok _ =>
      rw [outcome_ok, accepts_bind]
      refine accepts_issue rfl (fun rows hnodup => ?_) (fun _ hf => hf.elim)
      -- the rows still to be swept are held as they were read
      refine accepts_forEach (fun rest q => Holds n rest q ∧ q.Clear) ?_
        ⟨holds_phaseIn hnodup, clear_phaseIn unread_clear⟩ fun q hq => hq.2
      rintro row rest q hsuffix ⟨hholds, hclear⟩
      apply accepts_retryDelivery (hholds row (by simp))
      intro q' hother hown
      have hdistinct : row.id ∉ rest.map (fun row => row.id) := by
        have hsub := hnodup.sublist (hsuffix.sublist.map (fun row : LoadedNotice => row.id))
        exact (List.nodup_cons.mp hsub).1
      by_cases hid : row.id = n
      · refine ⟨?_, (hown hid).clear⟩
        intro x hx hxid
        exact absurd (List.mem_map.mpr ⟨x, hx, hxid.trans hid.symm⟩) hdistinct
      · rw [hother hid]
        exact ⟨fun x hx => hholds x (by simp [hx]), hclear⟩

theorem accepts_tick : Accepts (noticeMonitor n) tick .unread Ends := by
  unfold tick
  rw [accepts_bind]
  apply accepts_silent (c := .startSweep) rfl not_false
  intro started
  rw [outcome_ok]
  split
  · rw [accepts_bind, accepts_attempt]
    apply accepts_mono accepts_sweep
    intro out q' hclear
    exact accepts_silent (c := .endSweep) rfl not_false fun _ => hclear
  · exact unread_clear

/-! ### The queue's jobs -/

theorem accepts_skipOthers {row : LoadedNotice} {m : Messenger}
    {Q : Except Fault Unit → Phase → Prop} (hq : row.id = n → q = .known m) (hQ : Q (.ok ()) q) :
    Accepts (noticeMonitor n) (skipOthers row m) q Q := by
  refine accepts_forEach (fun _ q' => q' = q) ?_ rfl (fun q' hq' => hq' ▸ hQ)
  rintro other rest q' hsuffix rfl
  apply accepts_settle (by simp [settledAs]) _ rfl
  intro hid
  have hmem : other ∈ othersPending row m := hsuffix.subset (by simp)
  simp only [othersPending, List.mem_filter, decide_eq_true_eq] at hmem
  exact .inr ⟨m, hq hid, hmem.2.1⟩

theorem accepts_afterQueued {row : LoadedNotice} {m : Messenger} {isOpen : Bool}
    {result : DeliveryResult} (hclear : (delivered n row m q result.status).Clear) :
    Accepts (noticeMonitor n) (afterQueued row m isOpen result)
      (delivered n row m q result.status) Ends := by
  unfold afterQueued
  split
  · exact hclear
  · rename_i hsent
    rw [accepts_bind]
    apply accepts_skipOthers
    · intro hid
      exact if_pos ⟨hid, hsent⟩
    · exact hclear
  · split <;> exact hclear

theorem accepts_deliverQueued {window id : ℕ} {m : Messenger} :
    Accepts (noticeMonitor n) (deliverQueued window id m) .unread Ends := by
  unfold deliverQueued
  rw [accepts_bind]
  apply accepts_dateNow
  intro now
  rw [outcome_ok, accepts_bind]
  refine accepts_issue rfl (fun found _ => ?_) (fun _ hf => hf.elim)
  cases found with
  | none => exact unread_clear
  | some row =>
      have hholds : Holds n [row] (phaseIn n .unread [row]) := holds_phaseIn (by simp)
      have hclear : (phaseIn n .unread [row]).Clear := clear_phaseIn unread_clear
      show Accepts _ _ (phaseIn n .unread [row]) _
      generalize phaseIn n .unread [row] = q at hholds hclear
      have hrow : row.id = n → q = phaseOf row.toCargoNotification := hholds row (by simp)
      dsimp only
      split
      · exact hclear
      · rename_i hpending
        rw [not_not] at hpending
        split
        · rw [accepts_bind]
          apply accepts_settle (by simp only [settledAs]; split <;> simp) _ hclear
          intro hid
          rw [hrow hid]
          cases hs : row.sentSomewhere with
          | false => exact .inl (phaseOf_unsent hs)
          | true =>
              obtain ⟨m', hm', hsent⟩ := phaseOf_known hs
              refine .inr ⟨m', hm', ?_⟩
              rintro rfl
              rw [hsent] at hpending
              cases hpending
        · rename_i hgo
          have hunsent : row.id = n → q = .unsent := by
            intro hid
            rw [hrow hid]
            apply phaseOf_unsent
            cases hs : row.sentSomewhere with
            | false => rfl
            | true => exact absurd (.inl hs) hgo
          rw [accepts_bind]
          apply Unseen.accepts (keeps_holdForDigest unseen_aside)
          intro held
          cases held with
          | error e => exact hclear
          | ok held =>
              cases held with
              | some outcome => exact hclear
              | none =>
                  rw [outcome_ok, accepts_bind]
                  apply accepts_canDeliverListing
                  intro isOpen
                  rw [outcome_ok, accepts_bind]
                  apply accepts_deliverVia hpending hunsent
                  intro result
                  apply accepts_afterQueued
                  unfold delivered
                  split
                  · exact Phase.Settled.clear (.inr ⟨m, rfl⟩)
                  · exact hclear

/-- The rows kept for a summary are held unsent; dropping the others changes no phase. -/
theorem accepts_stillHeld {m : Messenger} {now : ℕ} {found : List LoadedNotice}
    {Q : Except Fault (List LoadedNotice) → Phase → Prop} (hholds : Holds n found q)
    (hQ : ∀ rows, rows.Sublist found → (∀ row ∈ rows, row.id = n → q = .unsent) → Q (.ok rows) q) :
    Accepts (noticeMonitor n) (stillHeld m now found) q Q := by
  induction found generalizing Q with
  | nil => exact hQ [] .slnil (by simp)
  | cons row rest ih =>
      have hrest : Holds n rest q := fun x hx => hholds x (by simp [hx])
      have hrow := hholds row (by simp)
      unfold stillHeld
      split
      · exact ih hrest fun rows hrows => hQ rows (hrows.cons _)
      · rename_i hpending
        rw [not_not] at hpending
        rw [accepts_bind]
        -- what is kept was sent nowhere, what is dropped is not written where it was sent
        have hdrop : Accepts (noticeMonitor n) (do
              updateDelivery row.id m (settledAs (if isStale row now then .failed else .skipped))
              stillHeld m now rest) q Q := by
          rw [accepts_bind]
          apply accepts_settle (by simp only [settledAs]; split <;> simp)
          · intro hid
            rw [hrow hid]
            cases hs : row.sentSomewhere with
            | false => exact .inl (phaseOf_unsent hs)
            | true =>
                obtain ⟨m', hm', hsent⟩ := phaseOf_known hs
                refine .inr ⟨m', hm', ?_⟩
                rintro rfl
                rw [hsent] at hpending
                cases hpending
          · exact ih hrest fun rows hrows => hQ rows (hrows.cons _)
        unfold isDropped
        split
        · exact hdrop
        · rename_i hgo
          have hunsent : row.sentSomewhere = false := by
            cases hs : row.sentSomewhere with
            | false => rfl
            | true => exact absurd (.inl hs) hgo
          rw [accepts_bind]
          apply accepts_canDeliverListing
          intro isOpen
          cases isOpen with
          | false => exact hdrop
          | true =>
              show Accepts _ (stillHeld m now rest >>= fun rows => pure (row :: rows)) q Q
              rw [accepts_bind]
              apply ih hrest
              intro rows hrows hall
              apply hQ (row :: rows) (hrows.cons_cons row)
              intro x hx hid
              rcases List.mem_cons.mp hx with rfl | hx
              · rw [hrow hid, phaseOf_unsent hunsent]
              · exact hall x hx hid

theorem accepts_handOn {rows : List LoadedNotice} {m : Messenger}
    {status : NotificationDeliveryStatus} (hstatus : status ≠ .sent)
    (hunsent : ∀ row ∈ rows, row.id = n → q = .unsent) (hclear : q.Clear) :
    Accepts (noticeMonitor n) (handOn rows m status) q Ends := by
  unfold handOn
  rw [accepts_bind]
  refine accepts_forEach (fun _ q' => q' = q) ?_ rfl (fun q' hq' => ?_)
  · rintro row rest q' hsuffix rfl
    apply accepts_settle (by simpa [settledAs] using hstatus) _ rfl
    intro hid
    exact .inl (hunsent row (hsuffix.subset (by simp)) hid)
  · subst hq'
    exact hclear

/-- The writes after a summary: the notice is owed until its own turn. -/
theorem accepts_writeDigest {rows : List LoadedNotice} {m : Messenger}
    {changes : CargoNotificationDelivery} {Q : Except Fault Unit → Phase → Prop}
    (hsent : changes.status = some .sent) (hnodup : (rows.map fun row => row.id).Nodup)
    (hclear : q.Clear) (hQ : ∀ q', q'.Clear → Q (.ok ()) q') :
    Accepts (noticeMonitor n)
      (.forEach (fun row => do
        updateDelivery row.id m changes
        skipOthers row m) rows)
      (if n ∈ rows.map (fun row => row.id) then .owed m else q) Q := by
  refine accepts_forEach
    (fun rest q' => (n ∈ rest.map (fun row => row.id) → q' = .owed m) ∧
      (n ∉ rest.map (fun row => row.id) → q'.Clear)) ?_ ?_ (fun q' hq' => hQ q' (hq'.2 (by simp)))
  · rintro row rest q' hsuffix ⟨hin, hout⟩
    have hdistinct : row.id ∉ rest.map (fun row => row.id) := by
      have hsub := hnodup.sublist (hsuffix.sublist.map (fun row : LoadedNotice => row.id))
      exact (List.nodup_cons.mp hsub).1
    rw [accepts_bind]
    by_cases hid : row.id = n
    · have hq' : q' = .owed m := hin (by simp [hid])
      subst hq'
      apply accepts_update
      · intro _
        exact ⟨rfl, hsent⟩
      · rw [if_pos hid]
        apply accepts_skipOthers (fun _ => rfl)
        refine ⟨fun hmem => absurd (hid ▸ hmem) hdistinct, ?_⟩
        intro _
        exact Phase.Settled.clear (.inr ⟨m, rfl⟩)
    · apply accepts_update (fun h => absurd h hid)
      rw [if_neg hid]
      apply accepts_skipOthers (fun h => absurd h hid)
      have hmem : n ∈ (row :: rest).map (fun row => row.id) ↔ n ∈ rest.map (fun row => row.id) := by
        rw [List.map_cons, List.mem_cons]
        exact ⟨fun h => h.resolve_left (fun h => hid h.symm), .inr⟩
      exact ⟨fun h => hin (hmem.mpr h), fun h => hout (fun hc => h (hmem.mp hc))⟩
  · split
    · rename_i hmem
      exact ⟨fun _ => rfl, fun h => absurd hmem h⟩
    · rename_i hmem
      exact ⟨fun h => absurd h hmem, fun _ => hclear⟩

theorem accepts_sendDigest {window userId : ℕ} {m : Messenger} {now : ℕ} {rows : List LoadedNotice}
    {Q : Except Fault Bool → Phase → Prop} (hnodup : (rows.map fun row => row.id).Nodup)
    (hunsent : ∀ row ∈ rows, row.id = n → q = .unsent) (hclear : q.Clear)
    (htrue : ∀ q', q'.Clear → Q (.ok true) q') (hfalse : Q (.ok false) q)
    (herr : ∀ e, Q (.error e) q) :
    Accepts (noticeMonitor n) (sendDigest window userId m now rows) q Q := by
  unfold sendDigest
  rw [accepts_bind]
  apply accepts_silent (c := .findLink userId m) rfl not_false
  intro link
  cases link with
  | none => exact hfalse
  | some chat =>
      rw [outcome_ok, accepts_bind]
      apply accepts_issue
      · intro hmem
        obtain ⟨row, hrow, hid⟩ := List.mem_map.mp hmem
        exact hunsent row hrow hid
      · intro messageId _
        rw [outcome_ok, accepts_bind]
        apply accepts_writeDigest rfl hnodup hclear
        intro q' hq'
        rw [outcome_ok, accepts_bind]
        cases hw : decide (window ≠ 0) with
        | false => exact htrue q' hq'
        | true => exact accepts_silent (c := .set _ _) rfl not_false fun _ => htrue q' hq'
      · intro e _
        exact herr e

theorem accepts_takeHeld {userId : ℕ} {m : Messenger} {Q : Except Fault (List ℕ) → Phase → Prop}
    (hQ : ∀ ids, Q (.ok ids) q) : Accepts (noticeMonitor n) (takeHeld userId m) q Q := by
  unfold takeHeld
  rw [accepts_bind]
  apply accepts_silent (c := .delete _) rfl not_false
  intro _
  rw [outcome_ok, accepts_bind]
  apply accepts_silent (c := .hashGetAll _) rfl not_false
  intro ids
  rw [outcome_ok, accepts_bind]
  cases h : decide (ids ≠ []) with
  | false => exact hQ ids
  | true => exact accepts_silent (c := .hashDelete _ _) rfl not_false fun _ => hQ ids

theorem accepts_findMany {ids : List ℕ} {Q : Except Fault (List LoadedNotice) → Phase → Prop}
    (hQ : ∀ found : List LoadedNotice, (found.map fun row => row.id).Nodup → ∀ q,
      Holds n found q → q.Clear → Q (.ok found) q) :
    Accepts (noticeMonitor n) (NoticeService.findManyWithListing ids) .unread Q := by
  unfold NoticeService.findManyWithListing
  split
  · exact hQ [] (by simp) .unread (by intro row hrow; simp at hrow) unread_clear
  · refine accepts_issue rfl (fun found hnodup => ?_) (fun _ hf => hf.elim)
    exact hQ found hnodup _ (holds_phaseIn hnodup) (clear_phaseIn unread_clear)

theorem accepts_deliverDigest {window userId : ℕ} {m : Messenger} :
    Accepts (noticeMonitor n) (deliverDigest window userId m) .unread Ends := by
  unfold deliverDigest
  rw [accepts_bind]
  apply accepts_dateNow
  intro now
  rw [outcome_ok, accepts_bind]
  apply accepts_takeHeld
  intro ids
  rw [outcome_ok, accepts_bind]
  refine accepts_findMany fun found hnodup q hholds hclear => ?_
  rw [outcome_ok, accepts_bind]
  apply accepts_stillHeld hholds
  intro rows hrows hunsent
  rw [outcome_ok]
  split
  · exact hclear
  · exact hclear
  · rw [accepts_bind, accepts_attempt]
    apply accepts_sendDigest (hnodup.sublist (hrows.map _)) hunsent hclear
    · intro q' hq'
      exact hq'
    · exact accepts_handOn (by simp) hunsent hclear
    · intro e
      rw [outcome_ok, afterDigest]
      split
      · exact accepts_handOn (by simp) hunsent hclear
      · exact Unseen.accepts (keeps_holdAgain unseen_aside) fun _ => hclear

theorem accepts_work {window : ℕ} {job : DeliveryJob} :
    Accepts (noticeMonitor n) (work window job) .unread Ends := by
  unfold work
  split
  · exact Unseen.accepts (keeps_editQueued unseen_aside) fun _ => unread_clear
  · exact accepts_deliverDigest
  · exact accepts_deliverQueued

theorem unseen_queueJobs {jobs : List DeliveryJob} :
    Unseen (noticeMonitor n) (queueJobs jobs) := by
  have hpublish : ∀ jobs, Unseen (noticeMonitor n) (publishEach jobs) := by
    intro jobs
    induction jobs with
    | nil => exact keeps_pure _
    | cons job rest ih =>
        exact keeps_bind (keeps_attempt (unseen_issue rfl)) fun _ => keeps_bind ih fun _ =>
          keeps_pure _
  have henqueue : Unseen (noticeMonitor n) (enqueue jobs) := by
    refine keeps_bind (unseen_issue rfl) fun up => ?_
    split
    · exact hpublish jobs
    · exact keeps_pure _
  have hschedule : Unseen (noticeMonitor n) (queueOrSchedule jobs) := by
    refine keeps_bind henqueue fun failed => keeps_bind (keeps_runIf ?_) fun _ => ?_
    · exact keeps_bind unseen_dateNow fun _ => keeps_forEach fun _ _ => unseen_issue rfl
    · exact keeps_forEach fun _ _ => keeps_bind (keeps_attempt (keeps_editQueued unseen_aside)) fun _ =>
        keeps_pure _
  unfold queueJobs
  split
  · exact keeps_pure _
  · exact keeps_bind (keeps_attempt hschedule) fun _ => keeps_pure _

/-- **No call sends a notice twice, or ends with a send it has not written down.** -/
theorem accepts_noticeProgram (window n : ℕ) (call : NoticeCall) :
    Accepts (noticeMonitor n) (noticeProgram window call) .unread Ends := by
  cases call with
  | announce listingId recipients =>
      have hsend : Unseen (noticeMonitor n) (sendToDrivers listingId recipients) :=
        keeps_bind (unseen_issue rfl) fun _ =>
          keeps_bind (keeps_forEach fun _ _ => unseen_issue rfl) fun _ =>
            keeps_bind (unseen_issue rfl) fun _ => unseen_queueJobs
      exact hsend.accepts fun _ => unread_clear
  | consume m =>
      show Accepts _ (consume window m) _ _
      unfold consume
      rw [accepts_bind]
      apply accepts_silent (c := .receive m) rfl not_false
      intro job
      cases job with
      | none => exact unread_clear
      | some job => exact accepts_handle_of_work (P := Phase.Clear) unseen_aside accepts_work
  | tick => exact accepts_tick

end Calls

end TransportBackend.NoticeMonitor
