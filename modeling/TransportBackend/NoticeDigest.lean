import TransportBackend.NoticeMonitor

/-!
# The loads held for a summary

A load that reaches a driver within the window of the last one is held: its notice's id goes into a
Redis hash, and the first one held sets a flag and queues a summary's job.  The job clears the flag,
reads the hash and takes out what it read.  Five commands of two programs, any number of which run at
once.

A monitor follows one call's part in this for one messenger and one driver (`Stage`):

* `accepts_digestProgram` — a call that has put an id asks for the flag, one that got the flag queues
  a job, one that cleared it reads the hash, one that read it takes out just that.
-/

namespace TransportBackend.NoticeDigest

open TransportBackend.AtomicProgram
open TransportBackend.InterleavedRun
open TransportBackend.MonitoredProgram
open TransportBackend.NoticeStore
open TransportBackend.NoticeService
open TransportBackend.NoticeMonitor

/-! ### Commands that have no part in it -/

/-- The commands on a driver's hash and flag, and on the queue. -/
def touches : Cmd → Bool
  | .setIfAbsent _ _ => true
  | .set (.cargoDigestWindow _ _) _ => false
  | .set _ _ => true
  | .delete _ => true
  | .hashSet _ _ => true
  | .hashDelete _ _ => true
  | .hashGetAll _ => true
  | .publish _ _ => true
  | .receive _ => true
  | _ => false

/-- A program that leaves the hashes, the flags and the queue alone. -/
def Apart {α : Type} (p : Delivery α) : Prop :=
  p.Within (fun c => touches c = false) (fun _ _ => True) (fun _ => True)

section Apart

variable {α β : Type}

theorem apart_pure (a : α) : Apart (pure a) := trivial

theorem apart_bind {p : Delivery α} {f : α → Delivery β} (hp : Apart p) (hf : ∀ a, Apart (f a)) :
    Apart (p >>= f) := by
  apply (Prog.within_bind _ _).mpr
  apply Prog.within_mono hp
  intro a _
  exact hf a

theorem apart_issue {c : Cmd} (h : touches c = false) : Apart (issue c) := by
  refine ⟨h, ?_⟩
  intro r _
  cases r <;> trivial

theorem apart_runIf {b : Bool} {p : Delivery Unit} (h : Apart p) : Apart (runIf b p) := by
  cases b with
  | true => exact h
  | false => trivial

theorem apart_attempt {p : Delivery α} (h : Apart p) : Apart p.attempt :=
  Prog.within_attempt h fun _ => trivial

theorem apart_forEach {body : β → Delivery Unit} {xs : List β} (h : ∀ x, Apart (body x)) :
    Apart (.forEach body xs) := Prog.within_forEach (fun x _ => h x) trivial

theorem apart_updateDelivery (id : ℕ) (m : Messenger) (changes : CargoNotificationDelivery) :
    Apart (updateDelivery id m changes) := apart_issue rfl

theorem apart_dateNow : Apart dateNow := apart_issue rfl

theorem apart_canDeliverListing (row : LoadedNotice) : Apart (canDeliverListing row) := by
  unfold canDeliverListing
  split
  · exact apart_pure _
  · split
    · exact apart_pure _
    · exact apart_issue rfl

theorem apart_skipOthers (row : LoadedNotice) (m : Messenger) : Apart (skipOthers row m) :=
  apart_forEach fun _ => apart_updateDelivery _ _ _

theorem apart_deliverVia (m : Messenger) (row : LoadedNotice) (isOpen : Bool) :
    Apart (deliverVia m row isOpen) := by
  have hlink : ∀ m, Apart (linkOf row m isOpen) := by
    intro m
    unfold linkOf
    split
    · exact apart_issue rfl
    · exact apart_pure _
  have hskip : ∀ m, Apart (skipDelivery row m) := fun _ =>
    apart_bind (apart_updateDelivery _ _ _) fun _ => apart_pure _
  have hfailed : ∀ m attempts retryAt, Apart (deliveryFailed row m attempts retryAt) := fun _ _ _ =>
    apart_bind (apart_updateDelivery _ _ _) fun _ => apart_pure _
  unfold deliverVia
  split
  · unfold deliverWhatsapp
    split
    · exact apart_pure _
    · refine apart_bind (hlink _) fun link => ?_
      split
      · exact hskip _
      · refine apart_bind (apart_attempt ?_) fun out => ?_
        · unfold sendWhatsapp
          refine apart_bind (apart_runIf (apart_issue rfl)) fun _ => apart_bind (apart_issue rfl)
            fun _ => apart_bind apart_dateNow fun _ => apart_bind (apart_updateDelivery _ _ _)
              fun _ => apart_issue rfl
        · split
          · exact apart_pure _
          · exact apart_bind apart_dateNow fun _ => hfailed _ _ _
  · unfold deliverBot
    split
    · exact apart_pure _
    · refine apart_bind (hlink _) fun link => ?_
      split
      · exact hskip _
      · refine apart_bind (apart_attempt ?_) fun out => ?_
        · unfold sendBot
          refine apart_bind (apart_runIf (apart_issue rfl)) fun _ => apart_bind (apart_issue rfl)
            fun _ => apart_bind (apart_issue rfl) fun _ => apart_updateDelivery _ _ _
        · split
          · exact apart_bind (apart_issue rfl) fun _ => apart_pure _
          · refine apart_bind apart_dateNow fun _ => ?_
            split
            · exact apart_bind (apart_updateDelivery _ _ _) fun _ => apart_pure _
            · exact hfailed _ _ _

theorem apart_afterQueued (row : LoadedNotice) (m : Messenger) (isOpen : Bool)
    (result : DeliveryResult) : Apart (afterQueued row m isOpen result) := by
  unfold afterQueued
  split
  · exact apart_pure _
  · exact apart_bind (apart_skipOthers row m) fun _ => apart_pure _
  · split <;> exact apart_pure _

theorem apart_stillHeld (m : Messenger) (now : ℕ) (rows : List LoadedNotice) :
    Apart (stillHeld m now rows) := by
  induction rows with
  | nil => exact apart_pure _
  | cons row rest ih =>
      unfold stillHeld
      split
      · exact ih
      · refine apart_bind ?_ fun drop => ?_
        · unfold isDropped
          split
          · exact apart_pure _
          · exact apart_bind (apart_canDeliverListing row) fun _ => apart_pure _
        · split
          · exact apart_bind (apart_updateDelivery _ _ _) fun _ => ih
          · exact apart_bind ih fun _ => apart_pure _

theorem apart_handOn (rows : List LoadedNotice) (m : Messenger) (status : NotificationDeliveryStatus) :
    Apart (handOn rows m status) :=
  apart_bind (apart_forEach fun _ => apart_updateDelivery _ _ _) fun _ => apart_pure _

theorem apart_sendDigest (window userId : ℕ) (m : Messenger) (now : ℕ) (rows : List LoadedNotice) :
    Apart (sendDigest window userId m now rows) := by
  unfold sendDigest
  refine apart_bind (apart_issue rfl) fun link => ?_
  split
  · exact apart_pure _
  · refine apart_bind (apart_issue rfl) fun _ => apart_bind (apart_forEach fun row => ?_) fun _ =>
      apart_bind (apart_runIf (apart_issue rfl)) fun _ => apart_pure _
    exact apart_bind (apart_updateDelivery _ _ _) fun _ => apart_skipOthers row m

theorem apart_findMany (ids : List ℕ) : Apart (NoticeService.findManyWithListing ids) := by
  unfold NoticeService.findManyWithListing
  split
  · exact apart_pure _
  · exact apart_issue rfl

theorem apart_editQueued (id : ℕ) (m : Messenger) : Apart (editQueued id m) := by
  have hwhatsapp : ∀ row, Apart (editWhatsapp row) := by
    intro row
    unfold editWhatsapp
    split
    · exact apart_pure _
    · refine apart_bind (apart_issue rfl) fun _ => apart_bind apart_dateNow fun _ => ?_
      split
      · exact apart_issue rfl
      · exact apart_runIf (apart_issue rfl)
  have hbot : ∀ m row, Apart (editBot m row) := by
    intro m row
    unfold editBot
    split
    · exact apart_pure _
    · refine apart_bind (apart_issue rfl) fun _ => ?_
      split
      · exact apart_issue rfl
      · refine apart_bind (apart_runIf (apart_bind (apart_issue rfl) fun _ => apart_pure _)) fun _ => ?_
        exact apart_issue rfl
  unfold editQueued
  refine apart_bind (apart_issue rfl) fun found => ?_
  split
  · exact apart_pure _
  · split
    · exact apart_pure _
    · refine apart_bind (apart_attempt ?_) fun out => ?_
      · split
        · exact hwhatsapp _
        · exact hbot _ _
      · split
        · exact apart_pure _
        · split
          · exact apart_bind apart_dateNow fun _ => apart_pure _
          · exact apart_pure _

end Apart

/-! ### The monitor of one driver's summary -/

/-- What a call owes the summary of one driver in one messenger: nothing; to ask for the flag, after
it put these ids; to queue a job, after it got the flag; to clear the flag, with a job in hand; to
read the hash; to take out the ids it read. -/
inductive Stage where
  | free
  | put (ids : List ℕ)
  | owes
  | due
  | cleared
  | took (ids : List ℕ)
  deriving DecidableEq

/-- The ids put and not yet followed by a flag. -/
def Stage.ids : Stage → List ℕ
  | .put ids => ids
  | _ => []

/-- A job of this driver's summary. -/
def isDigest (m : Messenger) (userId : ℕ) (job : DeliveryJob) : Bool :=
  job.kind = .digest ∧ job.messenger = m ∧ job.id = userId

/-- The messengers' own answers may be errors; nothing else fails. -/
def Answers (c : Cmd) : Resp c → Prop
  | .ok _ => True
  | .error _ => Fallible c ∧ ∀ job delay, c ≠ .publish job delay

/-- The monitor of the summary of driver `userId` in messenger `m`. -/
def digestMonitor (m : Messenger) (userId : ℕ) : Monitor Resp Stage where
  allowed q
    | .hashSet key _ => key = .cargoDigestPending m userId → q = .free ∨ ∃ ids, q = .put ids
    | .setIfAbsent key _ => key = .cargoDigestScheduled m userId → ∃ ids, q = .put ids
    | .set key _ => key ≠ .cargoDigestScheduled m userId
    | .delete key => key = .cargoDigestScheduled m userId → q = .free ∨ q = .due
    | .hashGetAll key => key = .cargoDigestPending m userId → q = .cleared
    | .hashDelete key ids => key = .cargoDigestPending m userId → q = .took ids
    | .receive _ => q = .free
    | .publish job _ => isDigest m userId job = true → q = .free ∨ q = .owes
    | _ => True
  answers _ := Answers
  next q
    | .hashSet key n, .ok _ => if key = .cargoDigestPending m userId then .put (n :: q.ids) else q
    | .setIfAbsent key _, .ok first =>
        if key = .cargoDigestScheduled m userId then (if first then .owes else .free) else q
    | .delete key, .ok _ => if key = .cargoDigestScheduled m userId then .cleared else q
    | .hashGetAll key, .ok ids =>
        if key = .cargoDigestPending m userId then (if ids = [] then .free else .took ids) else q
    | .hashDelete key _, .ok _ => if key = .cargoDigestPending m userId then .free else q
    | .receive _, .ok job => if job.any (isDigest m userId) then .due else q
    | .publish job _, .ok _ => if isDigest m userId job then .free else q
    | _, _ => q

/-! ### Each call -/

/-- The calls: a load held, or a job handled, or one taken off the queue; what follows is queued. -/
inductive DigestCall where
  | hold (row : LoadedNotice) (m : Messenger)
  | handle (job : DeliveryJob)
  | consume (m : Messenger)

/-- A load held and what follows from it. -/
def holdAndFollow (window : ℕ) (row : LoadedNotice) (m : Messenger) : Delivery Unit := do
  match ← holdForDigest window row m with
  | some outcome => do
      let job := { id := row.id, messenger := m, kind := .send }
      followOrRequeue job job outcome
  | none => pure ()

def digestProgram (window : ℕ) : DigestCall → Delivery Unit
  | .hold row m => holdAndFollow window row m
  | .handle job => handle window job
  | .consume m => consume window m

section Calls

variable {m : Messenger} {userId window : ℕ} {q : Stage} {α : Type}

/-- The commands on this driver's hash, flag and jobs. -/
def concerns (m : Messenger) (userId : ℕ) : Cmd → Bool
  | .hashSet key _ => key = .cargoDigestPending m userId
  | .hashGetAll key => key = .cargoDigestPending m userId
  | .hashDelete key _ => key = .cargoDigestPending m userId
  | .setIfAbsent key _ => key = .cargoDigestScheduled m userId
  | .set key _ => key = .cargoDigestScheduled m userId
  | .delete key => key = .cargoDigestScheduled m userId
  | .publish job _ => isDigest m userId job
  | .receive _ => true
  | _ => false

theorem unconcerned_seen {c : Cmd} (h : concerns m userId c = false) (q : Stage) :
    (digestMonitor m userId).allowed q c ∧ ∀ r, (digestMonitor m userId).next q c r = q := by
  cases c with
  | hashSet key n =>
      have hkey : key ≠ .cargoDigestPending m userId := of_decide_eq_false h
      refine ⟨fun hk => absurd hk hkey, fun r => ?_⟩
      cases r with
      | error e => rfl
      | ok _ => exact if_neg hkey
  | hashGetAll key =>
      have hkey : key ≠ .cargoDigestPending m userId := of_decide_eq_false h
      refine ⟨fun hk => absurd hk hkey, fun r => ?_⟩
      cases r with
      | error e => rfl
      | ok _ => exact if_neg hkey
  | hashDelete key ids =>
      have hkey : key ≠ .cargoDigestPending m userId := of_decide_eq_false h
      refine ⟨fun hk => absurd hk hkey, fun r => ?_⟩
      cases r with
      | error e => rfl
      | ok _ => exact if_neg hkey
  | setIfAbsent key ttl =>
      have hkey : key ≠ .cargoDigestScheduled m userId := of_decide_eq_false h
      refine ⟨fun hk => absurd hk hkey, fun r => ?_⟩
      cases r with
      | error e => rfl
      | ok _ => exact if_neg hkey
  | set key ttl => exact ⟨of_decide_eq_false h, fun _ => rfl⟩
  | delete key =>
      have hkey : key ≠ .cargoDigestScheduled m userId := of_decide_eq_false h
      refine ⟨fun hk => absurd hk hkey, fun r => ?_⟩
      cases r with
      | error e => rfl
      | ok _ => exact if_neg hkey
  | publish job delay =>
      have hjob : ¬isDigest m userId job = true := Bool.eq_false_iff.mp h
      refine ⟨fun hk => absurd hk hjob, fun r => ?_⟩
      cases r with
      | error e => rfl
      | ok _ => exact if_neg hjob
  | receive x => cases h
  | _ => exact ⟨trivial, fun _ => rfl⟩

theorem unconcerned_of_apart {c : Cmd} (h : touches c = false) : concerns m userId c = false := by
  cases c with
  | set key ttl =>
      cases key with
      | cargoDigestWindow x user => rfl
      | cargoDigestPending x user => cases h
      | cargoDigestScheduled x user => cases h
  | _ => first | rfl | cases h

theorem unseen_apart {p : Delivery α} (h : Apart p) : Unseen (digestMonitor m userId) p :=
  keeps_of_within (fun _ hc q => ⟨(unconcerned_seen (unconcerned_of_apart hc) q).1,
    fun r _ => (unconcerned_seen (unconcerned_of_apart hc) q).2 r⟩) h

theorem accepts_apart {p : Delivery α} {Q : Except Fault α → Stage → Prop} (h : Apart p)
    (hQ : ∀ out, Q out q) : Accepts (digestMonitor m userId) p q Q := (unseen_apart h).accepts hQ

/-- A command that does not fail. -/
theorem accepts_step {c : Cmd} {Q : Except Fault (Answer c) → Stage → Prop}
    (hallowed : (digestMonitor m userId).allowed q c)
    (hsafe : ¬(Fallible c ∧ ∀ job delay, c ≠ .publish job delay))
    (hQ : ∀ a, Q (.ok a) ((digestMonitor m userId).next q c (.ok a))) :
    Accepts (digestMonitor m userId) (issue c) q Q :=
  accepts_issue hallowed (fun a _ => hQ a) (fun _ hf => absurd hf hsafe)

/-- An answered command that does not concern this driver and does not fail. -/
theorem accepts_quiet {c : Cmd} {Q : Except Fault (Answer c) → Stage → Prop}
    (h : concerns m userId c = false) (hsafe : ¬(Fallible c ∧ ∀ job delay, c ≠ .publish job delay))
    (hQ : ∀ a, Q (.ok a) q) : Accepts (digestMonitor m userId) (issue c) q Q := by
  obtain ⟨hallowed, hnext⟩ := unconcerned_seen h q
  apply accepts_step hallowed hsafe
  intro a
  rw [hnext (.ok a)]
  exact hQ a

theorem accepts_put {n : ℕ} {Q : Except Fault Unit → Stage → Prop}
    (hq : q = .free ∨ ∃ ids, q = .put ids) (hQ : Q (.ok ()) (.put (n :: q.ids))) :
    Accepts (digestMonitor m userId) (issue (.hashSet (.cargoDigestPending m userId) n)) q Q := by
  refine accepts_issue (fun _ => hq) (fun _ _ => ?_) (fun _ hf => hf.1.elim)
  show Q (.ok ()) (if _ then _ else _)
  rwa [if_pos rfl]

theorem accepts_ask {ids : List ℕ} {ttl : ℕ} {Q : Except Fault Bool → Stage → Prop}
    (htrue : Q (.ok true) .owes) (hfalse : Q (.ok false) .free) :
    Accepts (digestMonitor m userId) (issue (.setIfAbsent (.cargoDigestScheduled m userId) ttl))
      (.put ids) Q := by
  refine accepts_issue (fun _ => ⟨ids, rfl⟩) (fun first _ => ?_) (fun _ hf => hf.1.elim)
  show Q (.ok first) (if _ then (if first then _ else _) else _)
  rw [if_pos rfl]
  cases first with
  | true => exact htrue
  | false => exact hfalse

theorem accepts_clear {Q : Except Fault Unit → Stage → Prop} (hq : q = .free ∨ q = .due)
    (hQ : Q (.ok ()) .cleared) :
    Accepts (digestMonitor m userId) (issue (.delete (.cargoDigestScheduled m userId))) q Q := by
  refine accepts_issue (fun _ => hq) (fun _ _ => ?_) (fun _ hf => hf.1.elim)
  show Q (.ok ()) (if _ then _ else _)
  rwa [if_pos rfl]

theorem accepts_readHash {Q : Except Fault (List ℕ) → Stage → Prop}
    (hQ : ∀ ids, Q (.ok ids) (if ids = [] then .free else .took ids)) :
    Accepts (digestMonitor m userId) (issue (.hashGetAll (.cargoDigestPending m userId))) .cleared
      Q := by
  refine accepts_issue (fun _ => rfl) (fun ids _ => ?_) (fun _ hf => hf.1.elim)
  show Q (.ok ids) (if _ then _ else _)
  rw [if_pos rfl]
  exact hQ ids

theorem accepts_take {ids : List ℕ} {Q : Except Fault Unit → Stage → Prop} (hQ : Q (.ok ()) .free) :
    Accepts (digestMonitor m userId) (issue (.hashDelete (.cargoDigestPending m userId) ids))
      (.took ids) Q := by
  refine accepts_issue (fun _ => rfl) (fun _ _ => ?_) (fun _ hf => hf.1.elim)
  show Q (.ok ()) (if _ then _ else _)
  rwa [if_pos rfl]

theorem accepts_publish {job : DeliveryJob} {delay : ℕ} {Q : Except Fault Unit → Stage → Prop}
    (hq : q = .free ∨ (q = .owes ∧ isDigest m userId job = true)) (hQ : Q (.ok ()) .free) :
    Accepts (digestMonitor m userId) (issue (.publish job delay)) q Q := by
  refine accepts_issue (fun _ => ?_) (fun _ _ => ?_) (fun _ hf => absurd rfl (hf.2 job delay))
  · exact hq.imp_right fun h => h.1
  · show Q (.ok ()) (if isDigest m userId job then .free else q)
    rcases hq with rfl | ⟨rfl, hjob⟩
    · rwa [ite_self]
    · rwa [if_pos hjob]

/-- Where a job's work leaves a call: owing nothing, or the summary's job its outcome queues. -/
def Done (m : Messenger) (userId : ℕ) (job : DeliveryJob) : Except Fault QueuedOutcome → Stage → Prop
  | .ok (.digest user _ _), q => q = .free ∨ (q = .owes ∧ job.messenger = m ∧ user = userId)
  | _, q => q = .free

theorem done_of_free {job : DeliveryJob} (out : Except Fault QueuedOutcome) :
    Done m userId job out .free := by
  unfold Done
  split
  · exact .inl rfl
  · rfl

theorem accepts_clockRead {Q : Except Fault ℕ → Stage → Prop} (hQ : ∀ now, Q (.ok now) q) :
    Accepts (digestMonitor m userId) dateNow q Q :=
  accepts_quiet (c := .dateNow) rfl (fun h => h.1) hQ

/-- A load held: the call ends owing nothing, or the job of the summary its outcome queues. -/
theorem accepts_holdForDigest {row : LoadedNotice} {x : Messenger} {job : DeliveryJob}
    (hjob : job.messenger = x) {Q : Except Fault (Option QueuedOutcome) → Stage → Prop}
    (hnone : Q (.ok none) .free)
    (hsome : ∀ outcome q', Done m userId job (.ok outcome) q' → Q (.ok (some outcome)) q') :
    Accepts (digestMonitor m userId) (holdForDigest window row x) .free Q := by
  unfold holdForDigest
  split
  · exact hnone
  · rw [accepts_bind, accepts_attempt]
    unfold hold
    rw [accepts_bind]
    apply accepts_quiet (c := .setIfAbsent _ _) rfl (fun h => h.1)
    intro alone
    rw [outcome_ok]
    split
    · exact hnone
    · rw [accepts_bind]
      by_cases hkey : x = m ∧ row.userId = userId
      · obtain ⟨rfl, rfl⟩ := hkey
        apply accepts_put (.inl rfl)
        rw [outcome_ok, accepts_bind]
        apply accepts_quiet (c := .expire _ _) rfl (fun h => h.1)
        intro _
        rw [outcome_ok, accepts_bind]
        apply accepts_ask
        · rw [outcome_ok, if_pos rfl, accepts_bind]
          apply accepts_quiet (c := .ttl _) rfl (fun h => h.1)
          intro left
          rw [outcome_ok, accepts_bind]
          apply accepts_clockRead
          intro now
          exact hsome _ _ (.inr ⟨rfl, hjob, rfl⟩)
        · exact hsome _ _ (done_of_free _)
      · have hpending : RedisKey.cargoDigestPending x row.userId ≠ .cargoDigestPending m userId := by
          intro h
          cases h
          exact hkey ⟨rfl, rfl⟩
        have hscheduled :
            RedisKey.cargoDigestScheduled x row.userId ≠ .cargoDigestScheduled m userId := by
          intro h
          cases h
          exact hkey ⟨rfl, rfl⟩
        apply accepts_quiet (c := .hashSet _ _) (decide_eq_false hpending) (fun h => h.1)
        intro _
        rw [outcome_ok, accepts_bind]
        apply accepts_quiet (c := .expire _ _) rfl (fun h => h.1)
        intro _
        rw [outcome_ok, accepts_bind]
        apply accepts_quiet (c := .setIfAbsent _ _) (decide_eq_false hscheduled) (fun h => h.1)
        intro first
        rw [outcome_ok]
        split
        · rw [accepts_bind]
          apply accepts_quiet (c := .ttl _) rfl (fun h => h.1)
          intro left
          rw [outcome_ok, accepts_bind]
          apply accepts_clockRead
          intro now
          exact hsome _ _ (done_of_free _)
        · exact hsome _ _ (done_of_free _)

theorem accepts_deliverQueued {id : ℕ} {job : DeliveryJob} :
    Accepts (digestMonitor m userId) (deliverQueued window id job.messenger) .free
      (Done m userId job) := by
  unfold deliverQueued
  rw [accepts_bind]
  apply accepts_clockRead
  intro now
  rw [outcome_ok, accepts_bind]
  apply accepts_quiet (c := .findWithListing .deliver id) rfl (fun h => h.1)
  intro found
  rw [outcome_ok]
  cases found with
  | none => rfl
  | some row =>
      dsimp only
      split
      · rfl
      · split
        · apply accepts_apart
          · exact apart_bind (apart_updateDelivery _ _ _) fun _ => apart_pure _
          · exact fun out => done_of_free out
        · rw [accepts_bind]
          apply accepts_holdForDigest (show job.messenger = job.messenger from rfl)
          · rw [outcome_ok]
            apply accepts_apart
            · exact apart_bind (apart_canDeliverListing row) fun _ =>
                apart_bind (apart_deliverVia _ _ _) fun _ => apart_afterQueued _ _ _ _
            · exact fun out => done_of_free out
          · intro outcome q' hdone
            exact hdone

/-- A summary held again puts its ids back and asks for the flag. -/
theorem accepts_holdAgain {now : ℕ} {rows : List LoadedNotice} {wait : Option ℕ} {job : DeliveryJob}
    (hrows : rows ≠ []) :
    Accepts (digestMonitor m userId) (holdAgain job.id job.messenger now rows wait) .free
      (Done m userId job) := by
  unfold holdAgain
  rw [accepts_bind]
  by_cases hown : job.messenger = m ∧ job.id = userId
  · obtain ⟨rfl, rfl⟩ := hown
    refine accepts_forEach (fun rest q => (rest = rows ∧ q = .free) ∨ ∃ ids, q = .put ids) ?_
      (.inl ⟨rfl, rfl⟩) ?_
    · rintro row rest q _ hq
      apply accepts_put
      · exact hq.imp_left fun h => h.2
      · exact .inr ⟨_, rfl⟩
    · intro q hq
      obtain ⟨ids, rfl⟩ := hq.resolve_left fun h => hrows h.1.symm
      rw [outcome_ok, accepts_bind]
      apply accepts_quiet (c := .expire _ _) rfl (fun h => h.1)
      intro _
      rw [outcome_ok, accepts_bind]
      apply accepts_ask
      · exact .inr ⟨rfl, rfl, rfl⟩
      · exact .inl rfl
  · have hpending : RedisKey.cargoDigestPending job.messenger job.id ≠
        .cargoDigestPending m userId := by
      intro h
      cases h
      exact hown ⟨rfl, rfl⟩
    have hscheduled : RedisKey.cargoDigestScheduled job.messenger job.id ≠
        .cargoDigestScheduled m userId := by
      intro h
      cases h
      exact hown ⟨rfl, rfl⟩
    refine accepts_forEach (fun _ q => q = .free) ?_ rfl ?_
    · rintro row rest q _ rfl
      exact accepts_quiet (c := .hashSet _ _) (decide_eq_false hpending) (fun h => h.1) fun _ => rfl
    · rintro q rfl
      rw [outcome_ok, accepts_bind]
      apply accepts_quiet (c := .expire _ _) rfl (fun h => h.1)
      intro _
      rw [outcome_ok, accepts_bind]
      apply accepts_quiet (c := .setIfAbsent _ _) (decide_eq_false hscheduled) (fun h => h.1)
      intro _
      exact .inl rfl

theorem accepts_takeHeld {job : DeliveryJob} {Q : Except Fault (List ℕ) → Stage → Prop}
    (hq : q = .free ∨ (q = .due ∧ job.messenger = m ∧ job.id = userId))
    (hQ : ∀ ids, Q (.ok ids) .free) :
    Accepts (digestMonitor m userId) (takeHeld job.id job.messenger) q Q := by
  unfold takeHeld
  rw [accepts_bind]
  by_cases hown : job.messenger = m ∧ job.id = userId
  · obtain ⟨rfl, rfl⟩ := hown
    apply accepts_clear (hq.imp_right fun h => h.1)
    rw [outcome_ok, accepts_bind]
    apply accepts_readHash
    intro ids
    rw [outcome_ok, accepts_bind]
    by_cases hids : ids = []
    · rw [if_pos hids, runIf, if_neg (by simp [hids])]
      exact hQ ids
    · rw [if_neg hids, runIf, if_pos (by simp [hids])]
      exact accepts_take (hQ ids)
  · obtain rfl : q = .free := hq.resolve_right fun h => hown h.2
    have hpending : RedisKey.cargoDigestPending job.messenger job.id ≠
        .cargoDigestPending m userId := by
      intro h
      cases h
      exact hown ⟨rfl, rfl⟩
    have hscheduled : RedisKey.cargoDigestScheduled job.messenger job.id ≠
        .cargoDigestScheduled m userId := by
      intro h
      cases h
      exact hown ⟨rfl, rfl⟩
    apply accepts_quiet (c := .delete _) (decide_eq_false hscheduled) (fun h => h.1)
    intro _
    rw [outcome_ok, accepts_bind]
    apply accepts_quiet (c := .hashGetAll _) (decide_eq_false hpending) (fun h => h.1)
    intro ids
    rw [outcome_ok, accepts_bind]
    cases decide (ids ≠ []) with
    | false => exact hQ ids
    | true =>
        exact accepts_quiet (c := .hashDelete _ _) (decide_eq_false hpending) (fun h => h.1)
          fun _ => hQ ids

theorem accepts_deliverDigest {job : DeliveryJob}
    (hq : q = .free ∨ (q = .due ∧ job.messenger = m ∧ job.id = userId)) :
    Accepts (digestMonitor m userId) (deliverDigest window job.id job.messenger) q
      (Done m userId job) := by
  unfold deliverDigest
  rw [accepts_bind]
  apply accepts_clockRead
  intro now
  rw [outcome_ok, accepts_bind]
  apply accepts_takeHeld hq
  intro ids
  rw [outcome_ok, accepts_bind]
  apply accepts_apart (apart_findMany ids)
  intro found
  cases found with
  | error e => rfl
  | ok found =>
      rw [outcome_ok, accepts_bind]
      apply accepts_apart (apart_stillHeld _ _ _)
      intro rows
      cases rows with
      | error e => rfl
      | ok rows =>
          rw [outcome_ok]
          split
          · rfl
          · rfl
          · rename_i hnone _
            rw [accepts_bind, accepts_attempt]
            apply accepts_apart (apart_sendDigest _ _ _ _ _)
            intro sent
            rw [outcome_ok]
            unfold afterDigest
            split
            · rfl
            · exact accepts_apart (apart_handOn _ _ _) fun out => done_of_free out
            · split
              · exact accepts_apart (apart_handOn _ _ _) fun out => done_of_free out
              · exact accepts_holdAgain hnone

theorem accepts_work {job : DeliveryJob}
    (hq : q = .free ∨ (q = .due ∧ isDigest m userId job = true)) :
    Accepts (digestMonitor m userId) (work window job) q (Done m userId job) := by
  have hdigest : isDigest m userId job = true →
      job.kind = .digest ∧ job.messenger = m ∧ job.id = userId := of_decide_eq_true
  have hfree : job.kind ≠ .digest → q = .free :=
    fun hk => hq.resolve_right fun h => hk (hdigest h.2).1
  unfold work
  cases hkind : job.kind with
  | edit =>
      obtain rfl := hfree (by simp [hkind])
      exact accepts_apart (apart_editQueued _ _) fun out => done_of_free out
  | send =>
      obtain rfl := hfree (by simp [hkind])
      exact accepts_deliverQueued
  | digest => exact accepts_deliverDigest (hq.imp_right fun h => ⟨h.1, (hdigest h.2).2⟩)

/-- What an outcome queues pays what the call owes. -/
theorem accepts_followOrRequeue {message job : DeliveryJob} {outcome : QueuedOutcome}
    (hdone : Done m userId job (.ok outcome) q) :
    Accepts (digestMonitor m userId) (followOrRequeue message job outcome) q (fun _ q' => q' = .free) := by
  have hlater : ∀ {next : DeliveryJob} {time : ℕ} {q : Stage},
      (q = .free ∨ (q = .owes ∧ isDigest m userId next = true)) →
      Accepts (digestMonitor m userId) (publishLater next time) q
        (fun out q' => out = .ok () ∧ q' = .free) := by
    intro next time q hq
    unfold publishLater
    rw [accepts_bind]
    apply accepts_clockRead
    intro now
    exact accepts_publish hq ⟨rfl, rfl⟩
  have hfollow : Accepts (digestMonitor m userId) (follow job outcome) q
      (fun out q' => out = .ok () ∧ q' = .free) := by
    cases outcome with
    | done =>
        obtain rfl : q = .free := hdone
        exact ⟨rfl, rfl⟩
    | retry time pause =>
        obtain rfl : q = .free := hdone
        exact hlater (.inl rfl)
    | next other =>
        obtain rfl : q = .free := hdone
        exact accepts_publish (.inl rfl) ⟨rfl, rfl⟩
    | digest user time pause =>
        apply hlater
        rcases hdone with rfl | ⟨rfl, hm, hu⟩
        · exact .inl rfl
        · exact .inr ⟨rfl, by simp [isDigest, hm, hu]⟩
    | jobs jobs =>
        obtain rfl : q = .free := hdone
        refine accepts_forEach (fun _ q' => q' = .free) ?_ rfl fun q' hq' => ⟨rfl, hq'⟩
        rintro next rest q' _ rfl
        exact accepts_publish (.inl rfl) rfl
  unfold followOrRequeue
  rw [accepts_bind, accepts_attempt]
  apply accepts_mono hfollow
  rintro out q' ⟨rfl, rfl⟩
  rfl

theorem accepts_handle {job : DeliveryJob}
    (hq : q = .free ∨ (q = .due ∧ isDigest m userId job = true)) :
    Accepts (digestMonitor m userId) (handle window job) q (fun _ q' => q' = .free) := by
  unfold handle
  rw [accepts_bind, accepts_attempt]
  apply accepts_mono (accepts_work hq)
  intro out q' hdone
  rw [outcome_ok]
  cases out with
  | ok outcome => exact accepts_followOrRequeue hdone
  | error e =>
      obtain rfl : q' = .free := hdone
      dsimp only
      split
      · exact accepts_quiet (c := .nack job false) rfl (fun h => h.1) fun _ => rfl
      · rw [accepts_bind]
        apply accepts_clockRead
        intro now
        exact accepts_followOrRequeue rfl

/-- **Every call keeps to the order of the five commands.** -/
theorem accepts_digestProgram (call : DigestCall) :
    Accepts (digestMonitor m userId) (digestProgram window call) .free (fun _ q => q = .free) := by
  cases call with
  | hold row x =>
      show Accepts _ (holdAndFollow window row x) _ _
      unfold holdAndFollow
      rw [accepts_bind]
      apply accepts_holdForDigest
        (show DeliveryJob.messenger { id := row.id, messenger := x, kind := .send } = x from rfl)
      · rfl
      · intro outcome q' hdone
        exact accepts_followOrRequeue hdone
  | handle job => exact accepts_handle (.inl rfl)
  | consume x =>
      show Accepts _ (consume window x) _ _
      unfold consume
      rw [accepts_bind]
      refine accepts_issue rfl (fun job _ => ?_) (fun _ hf => hf.1.elim)
      cases job with
      | none => rfl
      | some job =>
          rw [outcome_ok]
          show Accepts _ (handle window job) (if isDigest m userId job then Stage.due else Stage.free) _
          apply accepts_handle
          split
          · rename_i hjob
            exact .inr ⟨rfl, hjob⟩
          · exact .inl rfl

end Calls

end TransportBackend.NoticeDigest
