import TransportBackend.NoticeDigest

/-!
# A step of the delivery queue that fails

Nothing failed so far.  Here a read or update of the database, a Redis command or a publish may fail:
it has no effect and throws.  The consumer catches what its calls throw and puts the job back, so the
question is what the job finds when it comes again.

* `canFail`, `failing` — the steps the database, Redis and RabbitMQ answer;
* `Cut` — what hangs on the next step of the job in hand, read off its steps so far: a queued send
  that has **set the summary's flag and not queued its job**, or a summary whose ids are **out of
  the hash and nowhere else**;
* `strands` — the steps whose failure there leaves a load behind;
* `Care` — what there is to bring one notice to its driver: its id in the hash, the flag, the jobs
  queued.  `careMonitor` follows it through the steps of a job;
* `accepts_consume` — **a job handled to its end leaves the notice looked after**, if a step failed
  at most once and stranded nothing.
-/

namespace TransportBackend.NoticeFault

open TransportBackend.AtomicProgram
open TransportBackend.MonitoredProgram
open TransportBackend.NoticeStore
open TransportBackend.NoticeService
open TransportBackend.NoticeMonitor (accepts_issue edits keeps_editMessage)
open TransportBackend.NoticeDigest

/-! ### Steps that fail -/

/-- The steps that are a read or update of the database, a Redis command or a publish. -/
def canFail : Cmd → Bool
  | .dateNow => false
  | .sendListingImage _ _ => false
  | .sendListingVoice _ _ => false
  | .send _ _ _ => false
  | .editMessage _ _ => false
  | .react _ _ => false
  | .queueAvailable => false
  | .receive _ => false
  | .nack _ _ => false
  | .startSweep => false
  | .endSweep => false
  | _ => true

/-- The command failed. -/
def failing (c : Cmd) : Resp c → Bool
  | .ok _ => false
  | .error _ => canFail c

/-- What hangs on the next step of the job in hand. -/
inductive Cut where
  /-- nothing -/
  | clear
  /-- a queued send, without the flag of a summary -/
  | sending
  /-- a queued send that got the flag and has not queued the summary -/
  | flagged
  /-- a summary that has taken nothing out of the hash -/
  | summing
  /-- a summary whose ids are out of the hash and nowhere else -/
  | loose
  /-- a summary being sent: what goes wrong is caught -/
  | caught
  deriving DecidableEq

/-- Where a job starts. -/
def Cut.start : JobKind → Cut
  | .send => .sending
  | .digest => .summing
  | .edit => .clear

/-- What hangs on the step after this one. -/
def Cut.next (x : Cut) : (c : Cmd) → Resp c → Cut
  | .receive _, .ok (some job) => .start job.kind
  | .setIfAbsent (.cargoDigestScheduled _ _) _, .ok true => if x = .sending then .flagged else x
  | .hashDelete _ _, .ok _ => if x = .summing then .loose else x
  | .findLink _ _, .ok (some _) => if x = .loose then .caught else x
  | _, .ok _ => x
  | _, .error _ => if x = .caught then .loose else x

/-- A failure of this step leaves a load behind.  A summary finds its way back from a failed look-up
of the chat, and from the last steps of holding again. -/
def strands (x : Cut) : Cmd → Bool
  | .findLink _ _ => x = .flagged
  | .expire _ _ => x = .flagged
  | .setIfAbsent _ _ => x = .flagged
  | .publish job _ => x = .flagged ∨ (x = .loose ∧ job.kind ≠ .digest)
  | _ => x = .flagged ∨ x = .loose

/-- Whether the one failure has happened, and in which job. -/
inductive Trouble where
  | none
  | here
  | earlier
  deriving DecidableEq

/-- How often a job can have been tried. -/
def Trouble.tries : Trouble → ℕ
  | .none => 0
  | _ => 1

def Trouble.next (t : Trouble) : (c : Cmd) → Resp c → Trouble
  | .receive _, .ok (some _) => if t = .none then .none else .earlier
  | _, .ok _ => t
  | c, .error _ => if canFail c then .here else t

/-! ### What brings a notice to its driver -/

/-- What is known about one notice in one messenger: it is pending, its id is in the driver's hash,
was put there or taken out; the driver's flag is set; a job of the summary, a job of the notice is
queued. -/
structure Care where
  pending : Bool
  inHash : Bool
  held : Bool
  flagged : Bool
  summary : Bool
  send : Bool
  trouble : Trouble
  cut : Cut
  deriving DecidableEq

/-- A job that sends this notice. -/
def isSend (n : ℕ) (m : Messenger) (job : DeliveryJob) : Bool :=
  job.kind = .send ∧ job.messenger = m ∧ job.id = n

section Monitor

variable (n : ℕ) (m : Messenger) (userId : ℕ)

/-- A job comes into the queue. -/
def Care.queues (q : Care) (job : DeliveryJob) : Care :=
  { q with summary := q.summary || isDigest m userId job, send := q.send || isSend n m job }

/-- A job is taken off the queue; another one of the kind may be left, but need not be. -/
def Care.takes (q : Care) (job : DeliveryJob) : Care :=
  { q with summary := q.summary && !isDigest m userId job, send := q.send && !isSend n m job }

/-- What a command that was answered makes of it. -/
def Care.sees (q : Care) : (c : Cmd) → Resp c → Care
  | .updateDelivery id x changes, .ok _ =>
      if id = n ∧ x = m then
        { q with pending := q.pending && decide (changes.status.all (· = .pending) = true) }
      else q
  | .hashSet key x, .ok _ =>
      if key = .cargoDigestPending m userId ∧ x = n then { q with inHash := true, held := true }
      else q
  | .hashDelete key ids, .ok _ =>
      if key = .cargoDigestPending m userId ∧ n ∈ ids then { q with inHash := false, held := true }
      else q
  | .setIfAbsent key _, .ok _ =>
      if key = .cargoDigestScheduled m userId then { q with flagged := true } else q
  | .delete key, .ok _ =>
      if key = .cargoDigestScheduled m userId then { q with flagged := false } else q
  | .publish job _, .ok _ => q.queues n m userId job
  | .nack job true, .ok _ => q.queues n m userId job
  | .receive _, .ok (some job) => q.takes n m userId job
  | _, _ => q

/-- What is answered fits what is known. -/
def Care.Fits (q : Care) : (c : Cmd) → Answer c → Prop
  | .findWithListing _ id, found => (∀ row ∈ found, row.id = id) ∧ (id = n → ∃ row ∈ found,
      row.userId = userId ∧ (row.status m = .pending ↔ q.pending = true))
  | .findManyWithListing ids, found => n ∈ ids → q.pending = true →
      ∃ row ∈ found, row.id = n ∧ row.status m = .pending
  | .hashGetAll key, ids => key = .cargoDigestPending m userId → q.inHash = true → n ∈ ids
  | .setIfAbsent key _, first =>
      key = .cargoDigestScheduled m userId → first = false → q.flagged = true
  | .receive _, job => ∀ x ∈ job, x.tries ≤ q.trouble.tries
  | _, _ => True

/-- The answers that can be had: one step at most fails, and strands nothing. -/
def Care.Answers (q : Care) (c : Cmd) : Resp c → Prop
  | .ok a => q.Fits n m userId c a
  | .error _ => Fallible c ∧ canFail c = false ∨
      canFail c = true ∧ q.trouble = .none ∧ strands q.cut c = false

/-- The steps of a consumer: no column becomes pending again, and no job was tried more often than a
step failed. -/
def Care.Allows (q : Care) : Cmd → Prop
  | .updateDelivery id x changes =>
      id = n → x = m → changes.status = some .pending → q.pending = true
  | .publish job _ => job.tries ≤ q.trouble.tries
  | .nack job _ => job.tries ≤ q.trouble.tries
  | .set key _ => key ≠ .cargoDigestScheduled m userId
  | .failExpired _ _ => False
  | .scheduleRetry _ _ => False
  | .insertIgnoringDuplicates _ => False
  | _ => True

/-- The monitor of one notice in one messenger. -/
def careMonitor : Monitor Resp Care where
  allowed := Care.Allows n m userId
  answers q c r := q.Answers n m userId c r
  next q c r :=
    { q.sees n m userId c r with trouble := q.trouble.next c r, cut := q.cut.next c r }

end Monitor

/-! ### One step -/

section Step

variable {n : ℕ} {m : Messenger} {userId : ℕ} {q : Care} {c : Cmd}

/-- After a step that failed. -/
def Care.hurt (q : Care) : Care :=
  { q with trouble := .here, cut := if q.cut = .caught then .loose else q.cut }

theorem sees_error (e : Fault) : q.sees n m userId c (.error e) = q := by
  cases c with
  | nack job requeue => cases requeue <;> rfl
  | _ => rfl

theorem cut_error (x : Cut) (e : Fault) :
    x.next c (.error e) = if x = .caught then .loose else x := by
  cases c with
  | setIfAbsent key ttl => cases key <;> rfl
  | _ => rfl

theorem trouble_error (t : Trouble) (e : Fault) :
    t.next c (.error e) = if canFail c = true then .here else t := by
  cases c <;> rfl

theorem next_failed (e : Fault) (h : canFail c = true) :
    (careMonitor n m userId).next q c (.error e) = q.hurt := by
  show { q.sees n m userId c (.error e) with
    trouble := q.trouble.next c (.error e), cut := q.cut.next c (.error e) } = _
  rw [sees_error, cut_error, trouble_error, if_pos h]
  rfl

/-- The commands that leave what is known as it is. -/
def plain : Cmd → Bool
  | .updateDelivery _ _ _ => false
  | .hashSet _ _ => false
  | .hashDelete _ _ => false
  | .setIfAbsent _ _ => false
  | .set _ _ => false
  | .delete _ => false
  | .publish _ _ => false
  | .nack _ _ => false
  | .receive _ => false
  | .findLink _ _ => false
  | .failExpired _ _ => false
  | .scheduleRetry _ _ => false
  | .insertIgnoringDuplicates _ => false
  | .send _ _ _ => false
  | .editMessage _ _ => false
  | .react _ _ => false
  | _ => true

theorem plain_allowed (h : plain c = true) : (careMonitor n m userId).allowed q c := by
  cases c <;> trivial

theorem plain_next (h : plain c = true) (a : Answer c) :
    (careMonitor n m userId).next q c (.ok a) = q := by
  cases c <;> first | rfl | cases h

theorem plain_safe (h : plain c = true) (hf : canFail c = false) : ¬Fallible c := by
  cases c <;> first | exact id | cases h

/-- One command that may fail. -/
theorem accepts_command {Q : Except Fault (Answer c) → Care → Prop} (hfail : canFail c = true)
    (hallowed : (careMonitor n m userId).allowed q c)
    (hok : ∀ a, q.Fits n m userId c a → Q (.ok a) ((careMonitor n m userId).next q c (.ok a)))
    (herr : ∀ e, q.trouble = .none → strands q.cut c = false → Q (.error e) q.hurt) :
    Accepts (careMonitor n m userId) (issue c) q Q := by
  refine accepts_issue hallowed hok (fun e he => ?_)
  rw [next_failed e hfail]
  rcases he with ⟨_, hsafe⟩ | ⟨_, hnone, hstrands⟩
  · rw [hfail] at hsafe
    cases hsafe
  · exact herr e hnone hstrands

/-- A command that leaves what is known as it is, when it does not fail. -/
theorem accepts_plain {Q : Except Fault (Answer c) → Care → Prop} (h : plain c = true)
    (hok : ∀ a, q.Fits n m userId c a → Q (.ok a) q)
    (herr : ∀ e, canFail c = true → strands q.cut c = false → Q (.error e) q.hurt) :
    Accepts (careMonitor n m userId) (issue c) q Q := by
  refine accepts_issue (plain_allowed h) (fun a ha => ?_) (fun e he => ?_)
  · rw [plain_next h]
    exact hok a ha
  · rcases he with ⟨hfallible, hsafe⟩ | ⟨hfail, _, hstrands⟩
    · exact absurd hfallible (plain_safe h hsafe)
    · rw [next_failed e hfail]
      exact herr e hfail hstrands

theorem accepts_dateNow {Q : Except Fault ℕ → Care → Prop} (hok : ∀ t, Q (.ok t) q) :
    Accepts (careMonitor n m userId) dateNow q Q :=
  accepts_plain (c := .dateNow) rfl (fun t _ => hok t) (fun _ h => by cases h)

end Step

/-! ### What no step undoes -/

section Along

variable {n : ℕ} {m : Messenger} {userId : ℕ} {α : Type}

/-- The hash and the flag as they were, no job gone, and the notice pending only if it was. -/
structure Calm (q q' : Care) : Prop where
  pending : q'.pending = true → q.pending = true
  inHash : q'.inHash = q.inHash
  held : q'.held = q.held
  flagged : q'.flagged = q.flagged
  summary : q.summary = true → q'.summary = true
  send : q.send = true → q'.send = true

theorem Calm.refl (q : Care) : Calm q q := ⟨id, rfl, rfl, rfl, id, id⟩

theorem Calm.trans (q q' q'' : Care) (h : Calm q q') (h' : Calm q' q'') : Calm q q'' where
  pending hp := h.pending (h'.pending hp)
  inHash := h'.inHash.trans h.inHash
  held := h'.held.trans h.held
  flagged := h'.flagged.trans h.flagged
  summary hs := h'.summary (h.summary hs)
  send hs := h'.send (h.send hs)

theorem Calm.hurt (q : Care) : Calm q q.hurt := ⟨id, rfl, rfl, rfl, id, id⟩

theorem Calm.queues (q : Care) (job : DeliveryJob) : Calm q (q.queues n m userId job) where
  pending := id
  inHash := rfl
  held := rfl
  flagged := rfl
  summary hs := by simp [Care.queues, hs]
  send hs := by simp [Care.queues, hs]

theorem calm_step (q : Care) (c : Cmd) (r : Resp c) (h : touches c = false) :
    Calm q ((careMonitor n m userId).next q c r) := by
  have hsees : Calm q (q.sees n m userId c r) := by
    cases r with
    | error e =>
        rw [sees_error]
        exact .refl q
    | ok a =>
        cases c with
        | updateDelivery row x changes =>
            show Calm q (if _ then _ else _)
            split
            · exact ⟨fun hp => (Bool.and_eq_true_iff.mp hp).1, rfl, rfl, rfl, id, id⟩
            · exact .refl q
        | nack job requeue =>
            cases requeue with
            | true => exact .queues q job
            | false => exact .refl q
        | _ => first | exact .refl q | cases h
  exact ⟨hsees.pending, hsees.inHash, hsees.held, hsees.flagged, hsees.summary, hsees.send⟩

/-- A program apart from the hash, the flag and the queue leaves them so. -/
theorem accepts_calm {p : Delivery α} {q : Care} {Q : Except Fault α → Care → Prop} (hp : Apart p)
    (h : Accepts (careMonitor n m userId) p q Q) :
    Accepts (careMonitor n m userId) p q (fun out q' => Q out q' ∧ Calm q q') :=
  accepts_along Calm.refl Calm.trans (fun q c r hc _ => calm_step q c r hc) hp h

/-- An earlier failure stays the only one, and no failure is forgotten. -/
def Aged (q q' : Care) : Prop :=
  (q.trouble = .earlier → q'.trouble = .earlier) ∧ q.trouble.tries ≤ q'.trouble.tries

theorem aged_step (q : Care) (c : Cmd) (r : Resp c) (h : q.Answers n m userId c r) :
    Aged q ((careMonitor n m userId).next q c r) := by
  show (q.trouble = .earlier → q.trouble.next c r = .earlier) ∧
    q.trouble.tries ≤ (q.trouble.next c r).tries
  cases r with
  | error e =>
      rw [trouble_error]
      rcases h with ⟨_, hsafe⟩ | ⟨_, hnone, _⟩
      · rw [if_neg (by simp [hsafe])]
        exact ⟨id, le_rfl⟩
      · rw [hnone]
        exact ⟨by simp, Nat.zero_le _⟩
  | ok a =>
      cases c with
      | receive x =>
          cases a with
          | none => exact ⟨id, le_rfl⟩
          | some job =>
              show (_ → (if q.trouble = .none then _ else _) = _) ∧ _ ≤ Trouble.tries (if _ then _ else _)
              cases q.trouble <;> simp [Trouble.tries]
      | _ => exact ⟨id, le_rfl⟩

theorem accepts_aged {p : Delivery α} {q : Care} {Q : Except Fault α → Care → Prop}
    (h : Accepts (careMonitor n m userId) p q Q) :
    Accepts (careMonitor n m userId) p q (fun out q' => Q out q' ∧ Aged q q') :=
  accepts_along (fun _ => ⟨id, le_rfl⟩)
    (fun _ _ _ h h' => ⟨fun he => h'.1 (h.1 he), h.2.trans h'.2⟩)
    (fun q c r _ hr => aged_step q c r hr) (Prog.within_true p) h

end Along

/-! ### Programs that only settle -/

section Steady

variable {n : ℕ} {m : Messenger} {userId : ℕ} {α β : Type}

/-- How a program ends that hangs where it began: no failure while ids are loose, and one while the
summary is sent lets go of them. -/
def Stays (q : Care) : Except Fault α → Care → Prop
  | .ok _, q' => q'.cut = q.cut
  | .error _, q' => q'.trouble = .here ∧ q.cut ≠ .loose ∧ (q.cut = .caught → q'.cut = .loose)

/-- The program is accepted from everywhere and ends so. -/
def Steady (n : ℕ) (m : Messenger) (userId : ℕ) (p : Delivery α) : Prop :=
  ∀ q, Accepts (careMonitor n m userId) p q (Stays q)

theorem steady_pure (a : α) : Steady n m userId (pure a) := fun _ => rfl

theorem steady_bind {p : Delivery α} {f : α → Delivery β} (hp : Steady n m userId p)
    (hf : ∀ a, Steady n m userId (f a)) : Steady n m userId (p >>= f) := by
  intro q
  rw [accepts_bind]
  apply accepts_mono (hp q)
  intro out q' hout
  cases out with
  | error e => exact hout
  | ok a =>
      have hcut : q'.cut = q.cut := hout
      apply accepts_mono (hf a q')
      intro out q'' hout
      unfold Stays at hout ⊢
      rw [hcut] at hout
      exact hout

theorem steady_forEach {body : β → Delivery Unit} {xs : List β}
    (hbody : ∀ x, Steady n m userId (body x)) : Steady n m userId (.forEach body xs) := by
  induction xs with
  | nil => exact steady_pure ()
  | cons x xs ih => exact steady_bind (hbody x) fun _ => ih

theorem steady_hurt {q : Care} {e : Fault} (h : q.cut ≠ .loose) :
    Stays q (.error e : Except Fault α) q.hurt := ⟨rfl, h, fun hc => if_pos hc⟩

theorem not_loose {x : Cut} (h : decide (x = .flagged ∨ x = .loose) = false) : x ≠ .loose :=
  fun hx => of_decide_eq_false h (.inr hx)

/-- A write that settles a column. -/
theorem steady_settle {id : ℕ} {x : Messenger} {changes : CargoNotificationDelivery}
    (h : changes.status ≠ some .pending) : Steady n m userId (updateDelivery id x changes) :=
  fun _ => accepts_command rfl (fun _ _ hp => absurd hp h) (fun _ _ => rfl)
    (fun _ _ hs => steady_hurt (not_loose hs))

theorem settledAs_ne {status : NotificationDeliveryStatus} (h : status ≠ .pending) :
    (settledAs status).status ≠ some .pending := fun hs => h (Option.some.inj hs)

theorem accepts_canDeliver {row : LoadedNotice} {q : Care} {Q : Except Fault Bool → Care → Prop}
    (hok : ∀ isOpen, Q (.ok isOpen) q) (herr : ∀ e, q.cut ≠ .loose → Q (.error e) q.hurt) :
    Accepts (careMonitor n m userId) (canDeliverListing row) q Q := by
  unfold canDeliverListing
  split
  · exact hok true
  · split
    · exact hok false
    · exact accepts_plain rfl (fun isOpen _ => hok isOpen) (fun e _ hs => herr e (not_loose hs))

theorem steady_canDeliverListing (row : LoadedNotice) :
    Steady n m userId (canDeliverListing row) :=
  fun _ => accepts_canDeliver (fun _ => rfl) (fun _ hcut => steady_hurt hcut)

theorem steady_skipOthers (row : LoadedNotice) (x : Messenger) :
    Steady n m userId (skipOthers row x) :=
  steady_forEach fun _ => steady_settle (settledAs_ne (by decide))

theorem steady_isDropped (row : LoadedNotice) (now : ℕ) : Steady n m userId (isDropped row now) := by
  unfold isDropped
  split
  · exact steady_pure true
  · exact steady_bind (steady_canDeliverListing row) fun _ => steady_pure _

/-- A write that settles the notice. -/
theorem accepts_settled {id : ℕ} {x : Messenger} {changes : CargoNotificationDelivery} {q : Care}
    (h : changes.status.all (· = .pending) = false) :
    Accepts (careMonitor n m userId) (updateDelivery id x changes) q
      (fun out q' => Stays q out q' ∧
        (out = .ok () → id = n → x = m → q'.pending = false)) := by
  refine accepts_command rfl (fun _ _ hp => ?_) (fun _ _ => ⟨rfl, fun _ hid hx => ?_⟩)
    (fun _ _ hs => ⟨steady_hurt (not_loose hs), fun hok => by cases hok⟩)
  · rw [hp] at h
    cases h
  · show Care.pending (if _ then _ else _) = false
    rw [if_pos ⟨hid, hx⟩]
    simp [h]

end Steady

/-! ### A notice that is looked after -/

section Looked

variable {n : ℕ} {m : Messenger} {userId : ℕ} {q q' : Care} {job : DeliveryJob}

/-- The flag is set only while a summary is queued; and the notice, once held and still pending, has
its own job queued, or is in the hash while a summary is queued, or is in these hands. -/
def LookedIn (hands : Prop) (q : Care) : Prop :=
  (q.flagged = true → q.summary = true) ∧ (q.held = true → q.pending = true →
    q.send = true ∨ (q.inHash = true ∧ q.summary = true) ∨ hands)

/-- In nobody's hands. -/
abbrev Looked (q : Care) : Prop := LookedIn False q

/-- Looked after once this job is back in the queue. -/
def Owed (n : ℕ) (m : Messenger) (userId : ℕ) (job : DeliveryJob) (q : Care) : Prop :=
  Looked (q.queues n m userId job)

/-- What a job's outcome leads to when it is followed: what it queues brings the notice on, or if
that fails the job itself does. -/
def Follows (n : ℕ) (m : Messenger) (userId : ℕ) (job : DeliveryJob) : QueuedOutcome → Care → Prop
  | .done, q => Looked q
  | .retry _ _, q => Owed n m userId job q
  | .next _, q => Looked q
  | .digest user _ _, q =>
      Owed n m userId { id := user, messenger := job.messenger, kind := .digest } q ∧
        (q.cut = .flagged ∨ Owed n m userId job q)
  | .jobs jobs, q => Looked (jobs.foldl (Care.queues n m userId) q) ∧ q.cut = .loose ∧
      ∀ x ∈ jobs, x.kind = .send ∧ x.tries = 0

theorem LookedIn.calm {hands : Prop} (h : LookedIn hands q) (hc : Calm q q') :
    LookedIn hands q' := by
  constructor
  · intro hf
    rw [hc.flagged] at hf
    exact hc.summary (h.1 hf)
  · intro hheld hp
    rw [hc.held] at hheld
    rw [hc.inHash]
    exact (h.2 hheld (hc.pending hp)).imp hc.send (Or.imp_left (And.imp_right hc.summary))

/-- Out of these hands into others, or to where they belong. -/
theorem LookedIn.place {hands hands' : Prop} (h : LookedIn hands q)
    (hplace : q.held = true → q.pending = true → hands →
      q.send = true ∨ (q.inHash = true ∧ q.summary = true) ∨ hands') : LookedIn hands' q := by
  refine ⟨h.1, fun hheld hp => ?_⟩
  rcases h.2 hheld hp with hs | hs | hs
  · exact .inl hs
  · exact .inr (.inl hs)
  · exact hplace hheld hp hs

theorem Calm.queued (h : Calm q q') (job : DeliveryJob) :
    Calm (q.queues n m userId job) (q'.queues n m userId job) where
  pending := h.pending
  inHash := h.inHash
  held := h.held
  flagged := h.flagged
  summary hs := by
    simp only [Care.queues, Bool.or_eq_true] at hs ⊢
    exact hs.imp_left h.summary
  send hs := by
    simp only [Care.queues, Bool.or_eq_true] at hs ⊢
    exact hs.imp_left h.send

theorem Owed.calm (h : Owed n m userId job q) (hc : Calm q q') : Owed n m userId job q' :=
  LookedIn.calm h (hc.queued job)

theorem Looked.owed (h : Looked q) : Owed n m userId job q := h.calm (.queues q job)

theorem calm_foldl_queues (jobs : List DeliveryJob) :
    ∀ q : Care, Calm q (jobs.foldl (Care.queues n m userId) q) := by
  induction jobs with
  | nil => exact fun q => .refl q
  | cons job jobs ih => exact fun q => .trans _ _ _ (.queues q job) (ih _)

theorem isDigest_send {job : DeliveryJob} (h : job.kind = .send) : isDigest m userId job = false := by
  simp [isDigest, h]

theorem isSend_digest {job : DeliveryJob} (h : job.kind = .digest) : isSend n m job = false := by
  simp [isSend, h]

/-- A queued send owes nothing once the notice it sends is not pending. -/
theorem Owed.looked (h : Owed n m userId job q) (hkind : job.kind = .send)
    (hsettled : job.id = n → job.messenger = m → q.pending = false) : Looked q := by
  obtain ⟨hflag, hway⟩ := h
  simp only [Care.queues, isDigest_send hkind, Bool.or_false] at hflag hway
  refine ⟨hflag, fun hheld hp => ?_⟩
  have hnot : isSend n m job = false := by
    by_contra hsend
    simp only [isSend, Bool.not_eq_false, decide_eq_true_eq] at hsend
    rw [hsettled hsend.2.2 hsend.2.1] at hp
    cases hp
  rw [hnot, Bool.or_false] at hway
  exact hway hheld hp

end Looked

/-! ### A queued send -/

section Send

variable {n : ℕ} {m : Messenger} {userId window : ℕ} {q : Care} {row : LoadedNotice}
  {x : Messenger}

/-- The column the call writes, if it is the notice's, is pending. -/
def Open (n : ℕ) (m : Messenger) (row : LoadedNotice) (x : Messenger) (q : Care) : Prop :=
  row.id = n → x = m → q.pending = true

/-- What a messenger's answer says of the notice's column. -/
def Told (n : ℕ) (m : Messenger) (row : LoadedNotice) (x : Messenger) :
    Except Fault DeliveryResult → Care → Prop
  | .ok result, q => (result.status = .pending → result.retryAt.isSome = true) ∧
      (row.id = n → x = m → result.status ≠ .pending → q.pending = false)
  | .error _, q => q.trouble = .here

theorem accepts_runIf {b : Bool} {p : Delivery Unit} {Q : Except Fault Unit → Care → Prop}
    (hp : Accepts (careMonitor n m userId) p q Q) (hq : Q (.ok ()) q) :
    Accepts (careMonitor n m userId) (runIf b p) q Q := by
  unfold runIf
  split
  · exact hp
  · exact hq

theorem accepts_linkOf {isOpen : Bool} {Q : Except Fault (Option ℕ) → Care → Prop}
    (hok : ∀ chat cut, Q (.ok chat) { q with cut := cut }) (herr : ∀ e, Q (.error e) q.hurt) :
    Accepts (careMonitor n m userId) (linkOf row x isOpen) q Q := by
  unfold linkOf
  split
  · exact accepts_command rfl trivial (fun chat _ => hok chat _) (fun e _ _ => herr e)
  · exact hok none q.cut

theorem accepts_skipDelivery :
    Accepts (careMonitor n m userId) (skipDelivery row x) q (Told n m row x) := by
  unfold skipDelivery
  rw [accepts_bind]
  apply accepts_mono (accepts_settled rfl)
  intro out q' hout
  cases out with
  | ok _ => exact ⟨(fun h => by cases h), fun hid hx _ => hout.2 rfl hid hx⟩
  | error e => exact hout.1.1

theorem accepts_deliveryFailed {attempts : ℕ} {retryAt : Option ℕ} (h : Open n m row x q) :
    Accepts (careMonitor n m userId) (deliveryFailed row x attempts retryAt) q (Told n m row x) := by
  unfold deliveryFailed
  rw [accepts_bind]
  cases retryAt with
  | some time =>
      refine accepts_command rfl (fun hid hx _ => h hid hx) (fun _ _ => ⟨fun _ => rfl, ?_⟩)
        (fun _ _ _ => rfl)
      exact fun _ _ hne => absurd rfl hne
  | none =>
      apply accepts_mono (accepts_settled rfl)
      intro out q' hout
      cases out with
      | ok _ => exact ⟨(fun h => by cases h), fun hid hx _ => hout.2 rfl hid hx⟩
      | error e => exact hout.1.1

theorem accepts_botFailed {e : Fault} (h : Open n m row x q) :
    Accepts (careMonitor n m userId) (botFailed row x e) q (Told n m row x) := by
  unfold botFailed
  rw [accepts_bind]
  apply accepts_dateNow
  intro now
  show Accepts _ _ _ _
  split
  · rw [accepts_bind]
    refine accepts_command rfl (fun _ _ hp => by cases hp) (fun _ _ => ⟨fun _ => rfl, ?_⟩)
      (fun _ _ _ => rfl)
    exact fun _ _ hne => absurd rfl hne
  · exact accepts_deliveryFailed h

/-- A send: the messenger may throw, and the notice stays as it was until it is written. -/
theorem accepts_sent {chat : ℕ} {notices : List ℕ} {Q : Except Fault ℕ → Care → Prop}
    (hok : ∀ message, Q (.ok message) q)
    (herr : ∀ e, Q (.error e) { q with cut := if q.cut = .caught then .loose else q.cut }) :
    Accepts (careMonitor n m userId) (issue (.send x chat notices)) q Q :=
  accepts_issue trivial (fun message _ => hok message) (fun e _ => herr e)

/-- How a send ends: written, or the notice as it was. -/
def Written (n : ℕ) (m : Messenger) (row : LoadedNotice) (x : Messenger) (q : Care) :
    Except Fault Unit → Care → Prop
  | .ok _, q' => row.id = n → x = m → q'.pending = false
  | .error _, q' => q'.pending = q.pending

theorem accepts_write {changes : CargoNotificationDelivery} {q' : Care}
    (h : changes.status.all (· = .pending) = false) (hq : q'.pending = q.pending) :
    Accepts (careMonitor n m userId) (updateDelivery row.id x changes) q' (Written n m row x q) := by
  refine accepts_command rfl (fun _ _ hp => ?_) (fun _ _ hid hx => ?_) (fun _ _ _ => hq)
  · rw [hp] at h
    cases h
  · show Care.pending (if _ then _ else _) = false
    rw [if_pos ⟨hid, hx⟩]
    simp [h]

theorem accepts_sendBot {chat : ℕ} :
    Accepts (careMonitor n m userId) (sendBot row x chat) q (Written n m row x q) := by
  unfold sendBot
  rw [accepts_bind]
  have himage : Accepts (careMonitor n m userId) (issue (.sendListingImage row.id x)) q
      (fun out q' => out = .ok () ∧ q' = q) :=
    accepts_plain rfl (fun _ _ => ⟨rfl, rfl⟩) (fun _ hf => by cases hf)
  apply accepts_mono (accepts_runIf himage ⟨rfl, rfl⟩)
  rintro _ _ ⟨rfl, rfl⟩
  show Accepts _ (issue _ >>= _) _ _
  rw [accepts_bind]
  refine accepts_plain rfl (fun _ _ => ?_) (fun _ _ _ => rfl)
  show Accepts _ (issue _ >>= _) _ _
  rw [accepts_bind]
  exact accepts_sent (fun _ => accepts_write rfl rfl) (fun _ => rfl)

theorem accepts_sendWhatsapp {jid : ℕ} :
    Accepts (careMonitor n m userId) (sendWhatsapp row jid) q (Written n m row .whatsapp q) := by
  unfold sendWhatsapp
  rw [accepts_bind]
  have himage : Accepts (careMonitor n m userId) (issue (.sendListingImage row.id .whatsapp)) q
      (fun out q' => out = .ok () ∧ q' = q) :=
    accepts_plain rfl (fun _ _ => ⟨rfl, rfl⟩) (fun _ hf => by cases hf)
  apply accepts_mono (accepts_runIf himage ⟨rfl, rfl⟩)
  rintro _ _ ⟨rfl, rfl⟩
  show Accepts _ (issue _ >>= _) _ _
  rw [accepts_bind]
  refine accepts_sent (fun key => ?_) (fun _ => rfl)
  show Accepts _ (dateNow >>= _) _ _
  rw [accepts_bind]
  apply accepts_dateNow
  intro now
  show Accepts _ (updateDelivery _ _ _ >>= _) _ _
  rw [accepts_bind]
  apply accepts_mono (accepts_write rfl rfl)
  intro out q' hout
  cases out with
  | error e => exact hout
  | ok _ =>
      -- the voice note comes after the write and does not fail
      exact accepts_plain (c := .sendListingVoice row.id .whatsapp) rfl (fun _ _ => hout)
        (fun _ hf => by cases hf)

theorem accepts_deliverBot {isOpen : Bool} (hrow : row.status x = .pending) (h : Open n m row x q) :
    Accepts (careMonitor n m userId) (deliverBot x row isOpen) q (Told n m row x) := by
  unfold deliverBot
  rw [if_neg (by simp [hrow]), accepts_bind]
  refine accepts_linkOf (fun link cut => ?_) (fun _ => rfl)
  cases link with
  | none => exact accepts_skipDelivery
  | some chat =>
      show Accepts _ ((sendBot row x chat).attempt >>= _) _ _
      rw [accepts_bind, accepts_attempt]
      apply accepts_mono accepts_sendBot
      intro out q' hout
      cases out with
      | error e => exact accepts_botFailed fun hid hx => hout.trans (h hid hx)
      | ok _ =>
          show Accepts _ (issue _ >>= _) _ _
          rw [accepts_bind]
          exact accepts_plain (c := .sendListingVoice row.id x) rfl
            (fun _ _ => ⟨(fun h => by cases h), fun hid hx _ => hout hid hx⟩)
            (fun _ hf => by cases hf)

theorem accepts_deliverWhatsapp {isOpen : Bool} (hrow : row.status .whatsapp = .pending)
    (h : Open n m row .whatsapp q) :
    Accepts (careMonitor n m userId) (deliverWhatsapp row isOpen) q (Told n m row .whatsapp) := by
  unfold deliverWhatsapp
  rw [if_neg (by simp [hrow]), accepts_bind]
  refine accepts_linkOf (fun link cut => ?_) (fun _ => rfl)
  cases link with
  | none => exact accepts_skipDelivery
  | some jid =>
      show Accepts _ ((sendWhatsapp row jid).attempt >>= _) _ _
      rw [accepts_bind, accepts_attempt]
      apply accepts_mono accepts_sendWhatsapp
      intro out q' hout
      cases out with
      | ok _ => exact ⟨(fun h => by cases h), fun hid hx _ => hout hid hx⟩
      | error e =>
          show Accepts _ (dateNow >>= _) _ _
          rw [accepts_bind]
          apply accepts_dateNow
          intro now
          exact accepts_deliveryFailed fun hid hx => hout.trans (h hid hx)

theorem accepts_deliverVia {isOpen : Bool} (hrow : row.status x = .pending) (h : Open n m row x q) :
    Accepts (careMonitor n m userId) (deliverVia x row isOpen) q (Told n m row x) := by
  unfold deliverVia
  split
  · rename_i hx
    subst hx
    exact accepts_deliverWhatsapp hrow h
  · exact accepts_deliverBot hrow h

/-- How a job's work ends: with an outcome to follow, or thrown by the step that failed, with the
job to come again. -/
def Worked (n : ℕ) (m : Messenger) (userId : ℕ) (job : DeliveryJob) :
    Except Fault QueuedOutcome → Care → Prop
  | .ok outcome, q => Follows n m userId job outcome q
  | .error _, q => Owed n m userId job q ∧ q.trouble = .here

/-- How holding a load ends: held, or to be sent now. -/
def HeldBack (n : ℕ) (m : Messenger) (userId : ℕ) (job : DeliveryJob) (q : Care) :
    Except Fault (Option QueuedOutcome) → Care → Prop
  | .ok (some outcome), q' => Follows n m userId job outcome q'
  | _, q' => Owed n m userId job q' ∧ q'.pending = q.pending

/-- A queued send and the row it reads. -/
structure Sends (n userId : ℕ) (job : DeliveryJob) (row : LoadedNotice) (x : Messenger) : Prop where
  kind : job.kind = .send
  id : job.id = row.id
  messenger : job.messenger = x
  user : row.id = n → row.userId = userId

variable {job : DeliveryJob}

theorem Sends.isSend (h : Sends n userId job row x) (hid : row.id = n) (hx : x = m) :
    isSend n m job = true := by
  simp [NoticeFault.isSend, h.kind, h.id, h.messenger, hid, hx]

/-- A queued send looks after the notices of others, and has its own in hand. -/
theorem Sends.lookedIn (hjob : Sends n userId job row x) (h : Owed n m userId job q) :
    LookedIn (row.id = n ∧ x = m) q := by
  obtain ⟨hsummary, hway⟩ := h
  simp only [Care.queues, isDigest_send hjob.kind, Bool.or_false] at hsummary hway
  refine ⟨hsummary, fun hheld hp => ?_⟩
  rcases hway hheld hp with hs | hs | hno
  · rcases Bool.or_eq_true_iff.mp hs with hs | hs
    · exact .inl hs
    · simp only [NoticeFault.isSend, decide_eq_true_eq] at hs
      exact .inr (.inr ⟨hjob.id.symm.trans hs.2.2, hjob.messenger.symm.trans hs.2.1⟩)
  · exact .inr (.inl hs)
  · exact hno.elim

theorem next_hashSet (key : RedisKey) (id : ℕ) :
    (careMonitor n m userId).next q (.hashSet key id) (.ok ()) =
      if key = .cargoDigestPending m userId ∧ id = n then { q with inHash := true, held := true }
      else q := by
  simp only [careMonitor, Care.sees]
  split <;> rfl

theorem next_setFlag (x : Messenger) (user ttl : ℕ) (first : Bool) :
    (careMonitor n m userId).next q (.setIfAbsent (.cargoDigestScheduled x user) ttl) (.ok first) =
      { q with
        flagged := q.flagged || decide (x = m ∧ user = userId)
        cut := if first = true ∧ q.cut = .sending then .flagged else q.cut } := by
  cases first with
  | false =>
      simp only [careMonitor, Care.sees, RedisKey.cargoDigestScheduled.injEq]
      split
      · rename_i h
        simp only [h, Bool.or_true, decide_true, and_self, Bool.false_eq_true, false_and, if_false]
        rfl
      · rename_i h
        simp only [h, Bool.or_false, decide_false, Bool.false_eq_true, false_and, if_false]
        rfl
  | true =>
      simp only [careMonitor, Care.sees, RedisKey.cargoDigestScheduled.injEq]
      split
      · rename_i h
        simp only [h, Bool.or_true, decide_true, and_self, true_and]
        rfl
      · rename_i h
        simp only [h, Bool.or_false, decide_false, true_and]
        rfl

/-- A notice put into the hash has its job in hand. -/
theorem owed_put (hjob : Sends n userId job row x) (h : Owed n m userId job q) :
    Owed n m userId job ((careMonitor n m userId).next q
      (.hashSet (.cargoDigestPending x row.userId) row.id) (.ok ())) := by
  rw [next_hashSet]
  split
  · rename_i hkey
    refine ⟨h.1, fun _ _ => .inl ?_⟩
    simp [Care.queues, hjob.isSend hkey.2 (RedisKey.cargoDigestPending.inj hkey.1).1]
  · exact h

/-- What a hold has put is in the hash. -/
theorem inHash_put (hjob : Sends n userId job row x) (h : row.id = n ∧ x = m) :
    ((careMonitor n m userId).next q
      (.hashSet (.cargoDigestPending x row.userId) row.id) (.ok ())).inHash = true := by
  rw [next_hashSet, if_pos ⟨by rw [h.2, hjob.user h.1], h.1⟩]

/-- Held with the flag set by another: a summary is queued. -/
theorem looked_held (hjob : Sends n userId job row x) (h : Owed n m userId job q)
    (hin : row.id = n ∧ x = m → q.inHash = true)
    (hflag : x = m ∧ row.userId = userId → q.flagged = true) : Looked q := by
  have hlooked := hjob.lookedIn h
  refine hlooked.place fun _ _ hown => .inr (.inl ⟨hin hown, hlooked.1 (hflag ⟨hown.2, ?_⟩)⟩)
  exact hjob.user hown.1

/-- Held with the flag just set: the summary is still to be queued. -/
theorem owed_held (hjob : Sends n userId job row x) (h : Owed n m userId job q)
    (hin : row.id = n ∧ x = m → q.inHash = true) (cut : Cut) :
    Owed n m userId { id := row.userId, messenger := job.messenger, kind := .digest }
      { q with flagged := q.flagged || decide (x = m ∧ row.userId = userId), cut := cut } := by
  have hlooked := hjob.lookedIn h
  by_cases hown : x = m ∧ row.userId = userId
  · have hdigest : isDigest m userId ⟨row.userId, job.messenger, .digest, 0⟩ = true := by
      simp [isDigest, hjob.messenger, hown]
    refine ⟨fun _ => by simp [Care.queues, hdigest], fun hheld hp => ?_⟩
    rcases hlooked.2 hheld hp with hs | hs | hs
    · exact .inl (by simp [Care.queues, hs])
    · exact .inr (.inl ⟨hs.1, by simp [Care.queues, hdigest]⟩)
    · exact .inr (.inl ⟨hin hs, by simp [Care.queues, hdigest]⟩)
  · apply Looked.owed
    have hsame : Looked q := hlooked.place fun _ _ hs => absurd ⟨hs.2, hjob.user hs.1⟩ hown
    refine ⟨fun hf => hsame.1 ?_, hsame.2⟩
    simpa [hown] using hf

/-- **A load is held, or goes alone.** -/
theorem accepts_hold (hjob : Sends n userId job row x) (h : Owed n m userId job q)
    (hcut : q.cut = .sending) :
    Accepts (careMonitor n m userId) (hold window row x) q (HeldBack n m userId job q) := by
  have hhurt : ∀ {q' : Care}, Owed n m userId job q' → q'.pending = q.pending → ∀ e,
      HeldBack n m userId job q (.error e) q'.hurt :=
    fun h hp e => ⟨h.calm (.hurt _), hp⟩
  unfold hold
  rw [accepts_bind]
  refine accepts_command rfl trivial (fun alone _ => ?_) (fun e _ _ => hhurt h rfl e)
  have hwindow : (careMonitor n m userId).next q
      (.setIfAbsent (.cargoDigestWindow x row.userId) window) (.ok alone) = q := by
    cases alone <;> rfl
  rw [hwindow]
  cases alone with
  | true => exact ⟨h, rfl⟩
  | false =>
      show Accepts _ (issue _ >>= _) _ _
      rw [accepts_bind]
      refine accepts_command rfl trivial (fun _ _ => ?_) (fun e _ _ => hhurt h rfl e)
      have hput := owed_put (m := m) hjob h
      have hin := inHash_put (q := q) (m := m) hjob
      have hkeep : ((careMonitor n m userId).next q
          (.hashSet (.cargoDigestPending x row.userId) row.id) (.ok ())).pending = q.pending ∧
          ((careMonitor n m userId).next q
          (.hashSet (.cargoDigestPending x row.userId) row.id) (.ok ())).cut = .sending := by
        rw [next_hashSet]
        split <;> exact ⟨rfl, hcut⟩
      generalize (careMonitor n m userId).next q
        (.hashSet (.cargoDigestPending x row.userId) row.id) (.ok ()) = q₁ at hput hin hkeep
      show Accepts _ (issue _ >>= _) _ _
      rw [accepts_bind]
      refine accepts_plain rfl (fun _ _ => ?_) (fun e _ _ => hhurt hput hkeep.1 e)
      show Accepts _ (issue _ >>= _) _ _
      rw [accepts_bind]
      refine accepts_command rfl trivial (fun first hfirst => ?_) (fun e _ _ => hhurt hput hkeep.1 e)
      rw [next_setFlag]
      cases first with
      | false =>
          have hflag : x = m ∧ row.userId = userId → q₁.flagged = true :=
            fun hown => hfirst (by rw [hown.1, hown.2]) rfl
          have hlooked := looked_held hjob hput hin hflag
          refine ⟨fun hf => hlooked.1 ?_, hlooked.2⟩
          rcases Bool.or_eq_true_iff.mp hf with hf | hf
          · exact hf
          · exact hflag (of_decide_eq_true hf)
      | true =>
          -- from here to the publish no step may fail
          have howed := owed_held hjob hput hin .flagged
          rw [if_pos ⟨rfl, hkeep.2⟩]
          show Accepts _ (issue _ >>= _) _ _
          rw [accepts_bind]
          refine accepts_plain rfl (fun left _ => ?_) (fun e _ hs => by cases hs)
          show Accepts _ (dateNow >>= _) _ _
          rw [accepts_bind]
          apply accepts_dateNow
          intro now
          exact ⟨howed, .inl rfl⟩

theorem accepts_holdForDigest (hjob : Sends n userId job row x) (h : Owed n m userId job q)
    (hcut : q.cut = .sending) :
    Accepts (careMonitor n m userId) (holdForDigest window row x) q
      (fun out q' => ∃ held, out = .ok held ∧ HeldBack n m userId job q (.ok held) q') := by
  unfold holdForDigest
  split
  · exact ⟨none, rfl, h, rfl⟩
  · rw [accepts_bind, accepts_attempt]
    apply accepts_mono (accepts_hold hjob h hcut)
    intro out q' hout
    cases out with
    | ok held => exact ⟨held, rfl, hout⟩
    | error e => exact ⟨none, rfl, hout⟩

/-- After the messenger answered. -/
theorem accepts_afterQueued {isOpen : Bool} {result : DeliveryResult}
    (hjob : Sends n userId job row x) (h : Owed n m userId job q)
    (htold : Told n m row x (.ok result) q) :
    Accepts (careMonitor n m userId) (afterQueued row x isOpen result) q (Worked n m userId job) := by
  have hsettled : result.status ≠ .pending → Looked q := by
    intro hne
    apply h.looked hjob.kind
    intro hid hm
    exact htold.2 (hjob.id.symm.trans hid) (hjob.messenger.symm.trans hm) hne
  unfold afterQueued
  split
  · exact h
  · rename_i hsent
    have hlooked := hsettled (by rw [hsent]; decide)
    rw [accepts_bind]
    apply accepts_mono (accepts_calm (apart_skipOthers row x) (steady_skipOthers row x q))
    intro out q' hout
    cases out with
    | ok _ => exact hlooked.calm hout.2
    | error e => exact ⟨h.calm hout.2, hout.1.1⟩
  · rename_i _ hlater
    have hlooked : Looked q := by
      apply hsettled
      intro hp
      obtain ⟨time, ht⟩ := Option.isSome_iff_exists.mp (htold.1 hp)
      exact hlater time hp ht
    split
    · exact hlooked
    · cases nextPending row x with
      | some other => exact hlooked
      | none => exact hlooked

/-- **A queued send.** -/
theorem accepts_deliverQueued (hkind : job.kind = .send) (h : Owed n m userId job q)
    (hcut : q.cut = .sending) :
    Accepts (careMonitor n m userId) (deliverQueued window job.id job.messenger) q
      (Worked n m userId job) := by
  unfold deliverQueued
  rw [accepts_bind]
  apply accepts_dateNow
  intro now
  show Accepts _ (issue _ >>= _) _ _
  rw [accepts_bind]
  refine accepts_plain rfl (fun found hfound => ?_) (fun e _ _ => ⟨h.calm (.hurt q), rfl⟩)
  obtain ⟨hid, hread⟩ := hfound
  -- the column read is the one known
  have hown : ∀ row, found = some row → job.id = n →
      row.userId = userId ∧ (row.status m = .pending ↔ q.pending = true) := by
    rintro row rfl hn
    obtain ⟨row', hrow, hkeeps⟩ := hread hn
    obtain rfl : row = row' := Option.some.inj hrow
    exact hkeeps
  cases found with
  | none =>
      refine h.looked hkind fun hn _ => ?_
      obtain ⟨row, hrow, _⟩ := hread hn
      cases hrow
  | some row =>
      have hjob : Sends n userId job row job.messenger :=
        ⟨hkind, (hid row rfl).symm, rfl, fun hn => (hown row rfl ((hid row rfl).symm.trans hn)).1⟩
      show Accepts _ (if _ then _ else _) _ _
      split
      · rename_i hstatus
        refine h.looked hkind fun hn hm => ?_
        rw [hm] at hstatus
        exact Bool.eq_false_iff.mpr fun hp => hstatus ((hown row rfl hn).2.mpr hp)
      · rename_i hstatus
        rw [not_not] at hstatus
        split
        · rw [accepts_bind]
          apply accepts_mono (accepts_calm (apart_updateDelivery _ _ _) (accepts_settled ?_))
          · intro out q' hout
            cases out with
            | error e => exact ⟨h.calm hout.2, hout.1.1.1⟩
            | ok _ =>
                refine (h.calm hout.2).looked hkind fun hn hm => ?_
                exact hout.1.2 rfl ((hid row rfl).trans hn) hm
          · cases row.sentSomewhere <;> rfl
        · rw [accepts_bind]
          apply accepts_mono (accepts_holdForDigest hjob h hcut)
          rintro out q' ⟨held, rfl, hout⟩
          cases held with
          | some outcome => exact hout
          | none =>
              obtain ⟨howed, hpending⟩ := hout
              have hopen : Open n m row job.messenger q' := by
                intro hn hm
                rw [hpending]
                rw [hm] at hstatus
                exact (hown row rfl ((hid row rfl).symm.trans hn)).2.mp hstatus
              show Accepts _ (canDeliverListing row >>= _) _ _
              rw [accepts_bind]
              refine accepts_canDeliver (fun isOpen => ?_) (fun e _ => ⟨howed.calm (.hurt q'), rfl⟩)
              show Accepts _ (deliverVia job.messenger row isOpen >>= _) _ _
              rw [accepts_bind]
              apply accepts_mono (accepts_calm (apart_deliverVia _ row isOpen)
                (accepts_deliverVia hstatus hopen))
              rintro out q'' ⟨htold, hcalm⟩
              cases out with
              | error e => exact ⟨howed.calm hcalm, htold⟩
              | ok result => exact accepts_afterQueued hjob (howed.calm hcalm) htold

end Send

/-! ### A summary -/

section Digest

variable {n : ℕ} {m : Messenger} {userId window user now : ℕ} {q : Care} {x : Messenger}
  {job : DeliveryJob} {rows : List LoadedNotice}

/-- A job of the summary of driver `user` in messenger `x`. -/
structure Digests (job : DeliveryJob) (x : Messenger) (user : ℕ) : Prop where
  kind : job.kind = .digest
  messenger : job.messenger = x
  id : job.id = user

/-- The summary is of the notice's driver, in its messenger. -/
abbrev Own (m : Messenger) (userId : ℕ) (x : Messenger) (user : ℕ) : Prop := x = m ∧ user = userId

theorem Digests.isDigest (hjob : Digests job x user) :
    isDigest m userId job = decide (Own m userId x user) := by
  simp [NoticeDigest.isDigest, hjob.kind, hjob.messenger, hjob.id]

/-- In the hash, or in nobody's hands: the summary's job looks after the notice. -/
theorem Digests.owed (hjob : Digests job x user)
    (h : LookedIn (Own m userId x user ∧ q.inHash = true) q) : Owed n m userId job q := by
  refine ⟨fun hf => ?_, fun hheld hp => ?_⟩
  · simp [Care.queues, h.1 hf]
  · rcases h.2 hheld hp with hs | hs | hs
    · exact .inl (by simp [Care.queues, hs])
    · exact .inr (.inl ⟨hs.1, by simp [Care.queues, hs.2]⟩)
    · exact .inr (.inl ⟨hs.2, by simp [Care.queues, hjob.isDigest, hs.1]⟩)

theorem next_delete (x : Messenger) (user : ℕ) :
    (careMonitor n m userId).next q (.delete (.cargoDigestScheduled x user)) (.ok ()) =
      if Own m userId x user then { q with flagged := false } else q := by
  simp only [careMonitor, Care.sees, RedisKey.cargoDigestScheduled.injEq]
  split <;> rfl

/-- With its flag cleared, the summary has in hand what is in the hash. -/
theorem Digests.cleared {q' : Care} (hjob : Digests job x user) (h : Owed n m userId job q)
    (hq' : q' = if Own m userId x user then { q with flagged := false } else q) :
    LookedIn (Own m userId x user ∧ q'.inHash = true) q' ∧ q'.cut = q.cut := by
  obtain ⟨hsummary, hway⟩ := h
  simp only [Care.queues, hjob.isDigest, isSend_digest hjob.kind, Bool.or_false] at hsummary hway
  split at hq'
  · rename_i hown
    subst hq'
    refine ⟨⟨(fun hf => by cases hf), fun hheld hp => ?_⟩, rfl⟩
    rcases hway hheld hp with hs | hs | hno
    · exact .inl hs
    · exact .inr (.inr ⟨hown, hs.1⟩)
    · exact hno.elim
  · rename_i hown
    subst hq'
    rw [decide_eq_false hown, Bool.or_false] at hsummary hway
    exact ⟨LookedIn.place ⟨hsummary, hway⟩ fun _ _ hno => hno.elim, rfl⟩

theorem next_hashDelete (x : Messenger) (user : ℕ) (ids : List ℕ) (hcut : q.cut = .summing) :
    (careMonitor n m userId).next q (.hashDelete (.cargoDigestPending x user) ids) (.ok ()) =
      { (if Own m userId x user ∧ n ∈ ids then { q with inHash := false, held := true } else q) with
        cut := .loose } := by
  simp only [careMonitor, Care.sees, Cut.next, RedisKey.cargoDigestPending.injEq, hcut, if_true]
  split <;> rfl

/-- **A summary takes its ids**: what was in the hash is in its hands. -/
theorem accepts_takeHeld (hjob : Digests job x user) (h : Owed n m userId job q)
    (hcut : q.cut = .summing) :
    Accepts (careMonitor n m userId) (takeHeld user x) q
      (outcome (fun ids q' => LookedIn (Own m userId x user ∧ n ∈ ids) q' ∧
          (ids ≠ [] → q'.cut = .loose))
        (fun _ q' => Owed n m userId job q' ∧ q'.trouble = .here)) := by
  unfold takeHeld
  rw [accepts_bind]
  refine accepts_command rfl trivial (fun _ _ => ?_) (fun e _ _ => ⟨h.calm (.hurt q), rfl⟩)
  rw [next_delete]
  obtain ⟨hcleared, hcut₁⟩ := hjob.cleared h rfl
  replace hcut₁ := hcut₁.trans hcut
  generalize (if Own m userId x user then { q with flagged := false } else q : Care) = q₁ at *
  show Accepts _ (issue _ >>= _) _ _
  rw [accepts_bind]
  refine accepts_plain rfl (fun ids hids => ?_)
    (fun e _ _ => ⟨(hjob.owed hcleared).calm (.hurt q₁), rfl⟩)
  -- what is in the hash is read
  have hread : LookedIn (Own m userId x user ∧ n ∈ ids) q₁ := by
    refine hcleared.place fun _ _ hs => .inr (.inr ⟨hs.1, hids ?_ hs.2⟩)
    rw [hs.1.1, hs.1.2]
  show Accepts _ (runIf _ _ >>= _) _ _
  rw [accepts_bind]
  by_cases hempty : ids = []
  · subst hempty
    exact ⟨hread, fun hne => absurd rfl hne⟩
  · rw [show (runIf (decide (ids ≠ [])) (issue (.hashDelete (.cargoDigestPending x user) ids))) =
      issue (.hashDelete (.cargoDigestPending x user) ids) from if_pos (decide_eq_true hempty)]
    refine accepts_command rfl trivial (fun _ _ => ?_)
      (fun e _ _ => ⟨(hjob.owed hcleared).calm (.hurt q₁), rfl⟩)
    rw [next_hashDelete x user ids hcut₁]
    refine ⟨?_, fun _ => rfl⟩
    split
    · rename_i hown
      exact ⟨hread.1, fun _ _ => .inr (.inr hown)⟩
    · exact hread

/-- **What is still held**: while ids are loose no step fails, and a notice left out is settled. -/
theorem accepts_stillHeld (found : List LoadedNotice) (hcut : q.cut = .loose) :
    Accepts (careMonitor n m userId) (stillHeld x now found) q
      (outcome (fun rows q' => q'.cut = .loose ∧ (q'.pending = true → ∀ row ∈ found, row.id = n →
          x = m → row.status m = .pending → row ∈ rows)) (fun _ _ => False)) := by
  induction found generalizing q with
  | nil => exact ⟨hcut, by simp⟩
  | cons row rest ih =>
      unfold stillHeld
      split
      · rename_i hstatus
        apply accepts_mono (ih hcut)
        intro out q' hout
        cases out with
        | error e => exact hout
        | ok rows =>
            refine ⟨hout.1, fun hp row' hrow' hid hx hpending => ?_⟩
            rcases List.mem_cons.mp hrow' with rfl | hrow'
            · rw [hx] at hstatus
              exact absurd hpending hstatus
            · exact hout.2 hp row' hrow' hid hx hpending
      · rw [accepts_bind]
        apply accepts_mono (steady_isDropped row now q)
        intro out q' hout
        cases out with
        | error e => exact absurd hcut hout.2.1
        | ok drop =>
            have hcut' : q'.cut = .loose := Eq.trans hout hcut
            cases drop with
            | true =>
                show Accepts _ (updateDelivery _ _ _ >>= _) _ _
                rw [accepts_bind]
                apply accepts_mono (accepts_settled (by cases isStale row now <;> rfl))
                intro out q'' hout
                cases out with
                | error e => exact absurd hcut' hout.1.2.1
                | ok _ =>
                    have hcut'' : q''.cut = .loose := Eq.trans hout.1 hcut'
                    apply accepts_mono (accepts_calm (apart_stillHeld x now rest) (ih hcut''))
                    rintro out q₃ ⟨hrest, hcalm⟩
                    cases out with
                    | error e => exact hrest
                    | ok rows =>
                        refine ⟨hrest.1, fun hp row' hrow' hid hx hpending => ?_⟩
                        rcases List.mem_cons.mp hrow' with rfl | hrow'
                        · have hsettled := hout.2 rfl hid hx
                          rw [hcalm.pending hp] at hsettled
                          cases hsettled
                        · exact hrest.2 hp row' hrow' hid hx hpending
            | false =>
                show Accepts _ (stillHeld x now rest >>= _) _ _
                rw [accepts_bind]
                apply accepts_mono (ih hcut')
                intro out q'' hout
                cases out with
                | error e => exact hout
                | ok rows =>
                    refine ⟨hout.1, fun hp row' hrow' hid hx hpending => ?_⟩
                    rcases List.mem_cons.mp hrow' with rfl | hrow'
                    · exact List.mem_cons_self
                    · exact List.mem_cons_of_mem _ (hout.2 hp row' hrow' hid hx hpending)

/-- The summary's own notice among these rows. -/
abbrev Among (n : ℕ) (m : Messenger) (userId : ℕ) (x : Messenger) (user : ℕ)
    (rows : List LoadedNotice) : Prop := Own m userId x user ∧ ∃ row ∈ rows, row.id = n

theorem looked_nil (h : LookedIn (Among n m userId x user []) q) : Looked q := by
  refine h.place fun _ _ hs => ?_
  obtain ⟨_, row, hrow, _⟩ := hs
  cases hrow

/-- Writes that settle every row: none fails while ids are loose. -/
theorem accepts_handOn {status : NotificationDeliveryStatus} (hstatus : status ≠ .pending)
    (hcut : q.cut = .loose) (h : LookedIn (Among n m userId x user rows) q) :
    Accepts (careMonitor n m userId) (handOn rows x status) q (Worked n m userId job) := by
  have hsettles : (settledAs status).status.all (· = .pending) = false := by
    simp [settledAs, hstatus]
  unfold handOn
  rw [accepts_bind]
  refine accepts_forEach (fun rest q' => q'.cut = .loose ∧ LookedIn (Among n m userId x user rest) q')
    ?_ ⟨hcut, h⟩ ?_
  · intro row rest q' _ hq'
    apply accepts_mono (accepts_calm (apart_updateDelivery _ _ _) (accepts_settled hsettles))
    rintro out q'' ⟨hout, hcalm⟩
    cases out with
    | error e => exact absurd hq'.1 hout.1.2.1
    | ok _ =>
        refine ⟨Eq.trans hout.1 hq'.1, (hq'.2.calm hcalm).place ?_⟩
        rintro _ hp ⟨hown, row', hrow', hid⟩
        rcases List.mem_cons.mp hrow' with rfl | hrow'
        · rw [hout.2 rfl hid hown.1] at hp
          cases hp
        · exact .inr (.inr ⟨hown, row', hrow', hid⟩)
  · rintro q' ⟨hcut', hnone⟩
    have hlooked := looked_nil hnone
    show Worked n m userId job (.ok (if _ then _ else _)) q'
    split
    · exact hlooked
    · refine ⟨hlooked.calm (calm_foldl_queues _ _), hcut', ?_⟩
      intro next hnext
      obtain ⟨row, _, hrow⟩ := List.mem_filterMap.mp hnext
      obtain ⟨other, _, rfl⟩ := Option.map_eq_some_iff.mp hrow
      exact ⟨rfl, rfl⟩

/-- What is written after the summary was sent. -/
theorem accepts_writeDigest {changes : CargoNotificationDelivery}
    (h : changes.status.all (· = .pending) = false) (hcut : q.cut = .caught) :
    Accepts (careMonitor n m userId)
      (.forEach (fun row : LoadedNotice => do
        updateDelivery row.id x changes
        skipOthers row x) rows) q
      (outcome (fun _ q' => q'.cut = .caught ∧
          (x = m → (∃ row ∈ rows, row.id = n) → q'.pending = false))
        (fun _ q' => q'.cut = .loose)) := by
  refine accepts_forEach (fun rest q' => q'.cut = .caught ∧ (x = m → ∀ row ∈ rows, row.id = n →
    row ∈ rest ∨ q'.pending = false)) ?_ ⟨hcut, fun _ row hrow _ => .inl hrow⟩ ?_
  · intro row rest q' _ hq'
    have happart : Apart (updateDelivery row.id x changes >>= fun _ => skipOthers row x) :=
      apart_bind (apart_updateDelivery _ _ _) fun _ => apart_skipOthers row x
    have hwrite : Accepts (careMonitor n m userId)
        (updateDelivery row.id x changes >>= fun _ => skipOthers row x) q'
        (fun out q'' => Stays q' out q'' ∧ (out = .ok () → row.id = n → x = m →
          q''.pending = false)) := by
      rw [accepts_bind]
      apply accepts_mono (accepts_settled h)
      intro out q'' hout
      cases out with
      | error e => exact ⟨hout.1, fun hok => by cases hok⟩
      | ok _ =>
          have hcut'' : q''.cut = q'.cut := hout.1
          apply accepts_mono (accepts_calm (apart_skipOthers row x) (steady_skipOthers row x q''))
          rintro out q₃ ⟨hstays, hcalm⟩
          constructor
          · unfold Stays at hstays ⊢
            rw [hcut''] at hstays
            exact hstays
          · intro _ hid hx
            rw [← Bool.not_eq_true]
            intro hp
            have hsettled := hout.2 rfl hid hx
            rw [hcalm.pending hp] at hsettled
            cases hsettled
    apply accepts_mono (accepts_calm happart hwrite)
    rintro out q'' ⟨⟨hstays, hsettled⟩, hcalm⟩
    cases out with
    | error e => exact hstays.2.2 hq'.1
    | ok _ =>
        refine ⟨Eq.trans hstays hq'.1, fun hx row' hrow' hid => ?_⟩
        rcases hq'.2 hx row' hrow' hid with hin | hout
        · rcases List.mem_cons.mp hin with rfl | hin
          · exact .inr (hsettled rfl hid hx)
          · exact .inl hin
        · refine .inr (Bool.eq_false_iff.mpr fun hp => ?_)
          rw [hcalm.pending hp] at hout
          cases hout
  · rintro q' ⟨hcut', hall⟩
    refine ⟨hcut', fun hx hrow => ?_⟩
    obtain ⟨row, hrow, hid⟩ := hrow
    rcases hall hx row hrow hid with hin | hout
    · cases hin
    · exact hout

/-- **A summary is sent**: written everywhere, or its ids are loose. -/
theorem accepts_sendDigest (hcut : q.cut = .loose) :
    Accepts (careMonitor n m userId) (sendDigest window user x now rows) q
      (fun out q' => (out = .ok true ∧ (x = m → (∃ row ∈ rows, row.id = n) → q'.pending = false)) ∨
        (out ≠ .ok true ∧ q'.cut = .loose)) := by
  unfold sendDigest
  rw [accepts_bind]
  refine accepts_command rfl trivial (fun link _ => ?_)
    (fun e _ _ => .inr ⟨(fun h => by cases h), by simp [Care.hurt, hcut]⟩)
  cases link with
  | none => exact .inr ⟨(fun h => by cases h), hcut⟩
  | some chat =>
      have hcaught : ((careMonitor n m userId).next q (.findLink user x) (.ok (some chat))).cut =
          .caught := if_pos hcut
      generalize (careMonitor n m userId).next q (.findLink user x) (.ok (some chat)) = q₁ at hcaught
      show Accepts _ (issue _ >>= _) _ _
      rw [accepts_bind]
      refine accepts_sent (fun message => ?_)
        (fun e => .inr ⟨(fun h => by cases h), if_pos hcaught⟩)
      show Accepts _ (Prog.forEach _ rows >>= _) _ _
      rw [accepts_bind]
      apply accepts_mono (accepts_writeDigest rfl hcaught)
      intro out q' hout
      cases out with
      | error e => exact .inr ⟨(fun h => by cases h), hout⟩
      | ok _ =>
          obtain ⟨hcut', hsettled⟩ := hout
          show Accepts _ (runIf _ _ >>= _) _ _
          rw [accepts_bind]
          refine accepts_runIf ?_ (.inl ⟨rfl, hsettled⟩)
          exact accepts_command rfl (fun h => by cases h) (fun _ _ => .inl ⟨rfl, hsettled⟩)
            (fun e _ _ => .inr ⟨(fun h => by cases h), if_pos hcut'⟩)

/-- **Held again**: the ids are put back, and the summary's job comes again. -/
theorem accepts_holdAgain {wait : Option ℕ} (hjob : Digests job x user) (hcut : q.cut = .loose)
    (h : LookedIn (Among n m userId x user rows) q) :
    Accepts (careMonitor n m userId) (holdAgain user x now rows wait) q (Worked n m userId job) := by
  unfold holdAgain
  rw [accepts_bind]
  refine accepts_forEach (fun rest q' => q'.cut = .loose ∧
    LookedIn (Own m userId x user ∧ (q'.inHash = true ∨ ∃ row ∈ rest, row.id = n)) q') ?_
    ⟨hcut, h.place fun _ _ hs => .inr (.inr ⟨hs.1, .inr hs.2⟩)⟩ ?_
  · intro row rest q' _ hq'
    refine accepts_command rfl trivial (fun _ _ => ?_) (fun e _ hs => ?_)
    · rw [next_hashSet]
      split
      · rename_i hkey
        obtain ⟨hx, huser⟩ := RedisKey.cargoDigestPending.inj hkey.1
        exact ⟨hq'.1, hq'.2.1, fun _ _ => .inr (.inr ⟨⟨hx, huser⟩, .inl rfl⟩)⟩
      · rename_i hkey
        refine ⟨hq'.1, hq'.2.place fun _ _ hs => .inr (.inr ⟨hs.1, hs.2.imp_right ?_⟩)⟩
        rintro ⟨row', hrow', hid⟩
        rcases List.mem_cons.mp hrow' with rfl | hrow'
        · exact absurd ⟨by rw [hs.1.1, hs.1.2], hid⟩ hkey
        · exact ⟨row', hrow', hid⟩
    · rw [hq'.1] at hs
      cases hs
  · rintro q' ⟨hcut', hback⟩
    have hin : LookedIn (Own m userId x user ∧ q'.inHash = true) q' := by
      refine hback.place fun _ _ hs => .inr (.inr ⟨hs.1, ?_⟩)
      rcases hs.2 with hin | ⟨row, hrow, _⟩
      · exact hin
      · cases hrow
    have howed : Owed n m userId job q' := hjob.owed hin
    show Accepts _ (issue _ >>= _) _ _
    rw [accepts_bind]
    refine accepts_plain rfl (fun _ _ => ?_) (fun e _ _ => ⟨howed.calm (.hurt q'), rfl⟩)
    show Accepts _ (issue _ >>= _) _ _
    rw [accepts_bind]
    refine accepts_command rfl trivial (fun first _ => ?_)
      (fun e _ _ => ⟨howed.calm (.hurt q'), rfl⟩)
    rw [next_setFlag]
    -- the flag is set for a summary that is about to be queued
    have hagain : ∀ job' : DeliveryJob, Digests job' x user → Owed n m userId job'
        { q' with
          flagged := q'.flagged || decide (Own m userId x user)
          cut := if first = true ∧ q'.cut = .sending then .flagged else q'.cut } := by
      intro job' hjob'
      obtain ⟨hsummary, hway⟩ := hjob'.owed (n := n) hin
      refine ⟨fun hf => ?_, hway⟩
      rcases Bool.or_eq_true_iff.mp hf with hf | hf
      · exact hsummary hf
      · simp [Care.queues, hjob'.isDigest, of_decide_eq_true hf]
    exact ⟨hagain _ ⟨rfl, hjob.messenger, rfl⟩, .inr (hagain job hjob)⟩

/-- The rows of a summary are sent together, handed on, or held again. -/
theorem accepts_sendRows (hjob : Digests job x user) (hcut : q.cut = .loose)
    (h : LookedIn (Among n m userId x user rows) q) :
    Accepts (careMonitor n m userId) ((sendDigest window user x now rows).attempt >>=
      afterDigest user x now rows) q (Worked n m userId job) := by
  rw [accepts_bind, accepts_attempt]
  apply accepts_mono (accepts_calm (apart_sendDigest window user x now rows)
    (accepts_sendDigest hcut))
  rintro out q' ⟨hout, hcalm⟩
  have hamong := h.calm hcalm
  rcases hout with ⟨rfl, hsettled⟩ | ⟨hne, hcut'⟩
  · refine hamong.place fun _ hp hs => ?_
    rw [hsettled hs.1.1 hs.2] at hp
    cases hp
  · cases out with
    | ok sent =>
        cases sent with
        | true => exact absurd rfl hne
        | false => exact accepts_handOn (by decide) hcut' hamong
    | error e =>
        show Accepts _ (if _ then _ else _) _ _
        split
        · exact accepts_handOn (by decide) hcut' hamong
        · exact accepts_holdAgain hjob hcut' hamong

/-- **A summary.** -/
theorem accepts_deliverDigest (hjob : Digests job x user) (h : Owed n m userId job q)
    (hcut : q.cut = .summing) :
    Accepts (careMonitor n m userId) (deliverDigest window user x) q (Worked n m userId job) := by
  unfold deliverDigest
  rw [accepts_bind]
  apply accepts_dateNow
  intro now
  show Accepts _ (takeHeld user x >>= _) _ _
  rw [accepts_bind]
  apply accepts_mono (accepts_takeHeld hjob h hcut)
  intro out q' hout
  cases out with
  | error e => exact hout
  | ok ids =>
      obtain ⟨htaken, hloose⟩ := hout
      show Accepts _ (NoticeService.findManyWithListing ids >>= _) _ _
      rw [accepts_bind]
      by_cases hempty : ids = []
      · subst hempty
        exact htaken.place fun _ _ hs => by cases hs.2
      · have hcut' := hloose hempty
        rw [show NoticeService.findManyWithListing ids = issue (.findManyWithListing ids) from
          if_neg hempty]
        refine accepts_plain rfl (fun found hfound => ?_) (fun e _ hs => ?_)
        · show Accepts _ (stillHeld x now found >>= _) _ _
          rw [accepts_bind]
          apply accepts_mono (accepts_calm (apart_stillHeld x now found)
            (accepts_stillHeld found hcut'))
          rintro out q'' ⟨hout, hcalm⟩
          cases out with
          | error e => exact hout.elim
          | ok rows =>
              obtain ⟨hcut'', hrows⟩ := hout
              have hamong : LookedIn (Among n m userId x user rows) q'' := by
                refine (htaken.calm hcalm).place fun _ hp hs => .inr (.inr ⟨hs.1, ?_⟩)
                obtain ⟨row, hrow, hid, hpending⟩ := hfound hs.2 (hcalm.pending hp)
                exact ⟨row, hrows hp row hrow hid hs.1.1 hpending, hid⟩
              cases rows with
              | nil => exact looked_nil hamong
              | cons row rest =>
                  cases rest with
                  | cons row' rest => exact accepts_sendRows hjob hcut'' hamong
                  | nil =>
                      refine ⟨?_, hcut'', fun next hnext => ?_⟩
                      · refine LookedIn.place (hamong.calm (.queues q'' _)) fun _ _ hs => .inl ?_
                        obtain ⟨hown, row', hrow', hid⟩ := hs
                        obtain rfl := List.mem_singleton.mp hrow'
                        simp [Care.queues, isSend, hown.1, hid]
                      · obtain rfl := List.mem_singleton.mp hnext
                        exact ⟨rfl, rfl⟩
        · rw [hcut'] at hs
          cases hs

end Digest

/-! ### A job of the queue -/

section Job

variable {n : ℕ} {m : Messenger} {userId window : ℕ} {q : Care} {job message : DeliveryJob}

theorem edits_allowed {c : Cmd} (h : edits c = true) : (careMonitor n m userId).allowed q c := by
  cases c <;> trivial

/-- An edit leaves the notice alone; what it throws comes from the one read outside its `try`. -/
theorem accepts_editQueued {id : ℕ} {x : Messenger} (h : Looked q) :
    Accepts (careMonitor n m userId) (editQueued id x) q (Worked n m userId job) := by
  -- whatever is caught, nothing that matters here was touched
  suffices hend : Accepts (careMonitor n m userId) (editQueued id x) q
      (outcome (fun out _ => out = .done ∨ ∃ time pause, out = .retry time pause)
        (fun _ q' => q'.trouble = .here)) by
    apply accepts_mono (accepts_calm (apart_editQueued id x) hend)
    rintro out q' ⟨hout, hcalm⟩
    cases out with
    | error e => exact ⟨Looked.owed (h.calm hcalm), hout⟩
    | ok outcome =>
        rcases hout with rfl | ⟨time, pause, rfl⟩
        · exact h.calm hcalm
        · exact Looked.owed (h.calm hcalm)
  have hedit : ∀ row, Keeps (careMonitor n m userId) (fun _ => ())
      (if x = .whatsapp then editWhatsapp row else editBot x row) := by
    apply keeps_editMessage
    intro c hc q
    exact accepts_issue (edits_allowed hc) (fun _ _ => rfl) (fun _ _ => rfl)
  unfold editQueued
  rw [accepts_bind]
  refine accepts_plain rfl (fun found _ => ?_) (fun e _ _ => rfl)
  cases found with
  | none => exact .inl rfl
  | some row =>
      show Accepts _ (if _ then _ else _) _ _
      split
      · exact .inl rfl
      · rw [accepts_bind, accepts_attempt]
        apply accepts_mono (hedit row q)
        intro out q' _
        cases out with
        | ok _ => exact .inl rfl
        | error e =>
            cases hwait : rateLimitWaitMs e with
            | none =>
                simp only [outcome_ok, hwait]
                exact .inl rfl
            | some wait =>
                simp only [outcome_ok, hwait, accepts_bind]
                exact accepts_dateNow fun now => .inr ⟨_, _, rfl⟩

/-- What a job does. -/
theorem accepts_work (h : Owed n m userId job q) (hcut : q.cut = .start job.kind) :
    Accepts (careMonitor n m userId) (work window job) q (Worked n m userId job) := by
  unfold work
  cases hkind : job.kind with
  | edit =>
      have hnone : q.queues n m userId job = q := by
        simp [Care.queues, isDigest, isSend, hkind]
      unfold Owed at h
      rw [hnone] at h
      exact accepts_editQueued h
  | digest =>
      rw [hkind] at hcut
      exact accepts_deliverDigest ⟨hkind, rfl, rfl⟩ h hcut
  | send =>
      rw [hkind] at hcut
      exact accepts_deliverQueued hkind h hcut

/-- Jobs that differ in their tries alone bring the same on. -/
theorem queues_tries (q : Care) (job : DeliveryJob) (tries : ℕ) :
    q.queues n m userId { job with tries := tries } = q.queues n m userId job := rfl

/-- One job queued: it is there, or the failure is told. -/
theorem accepts_publish {delay : ℕ} {Q : Except Fault Unit → Care → Prop}
    (htries : job.tries ≤ q.trouble.tries) (hok : Q (.ok ()) (q.queues n m userId job))
    (herr : ∀ e, strands q.cut (.publish job delay) = false → Q (.error e) q.hurt) :
    Accepts (careMonitor n m userId) (issue (.publish job delay)) q Q :=
  accepts_command rfl htries (fun _ _ => hok) (fun e _ hs => herr e hs)

theorem accepts_publishLater {time : ℕ} {Q : Except Fault Unit → Care → Prop}
    (htries : job.tries ≤ q.trouble.tries) (hok : Q (.ok ()) (q.queues n m userId job))
    (herr : ∀ e delay, strands q.cut (.publish job delay) = false → Q (.error e) q.hurt) :
    Accepts (careMonitor n m userId) (publishLater job time) q Q := by
  unfold publishLater
  rw [accepts_bind]
  apply accepts_dateNow
  intro now
  exact accepts_publish htries hok (fun e hs => herr e _ hs)

/-- The end of following an outcome: looked after, or so once the message is back. -/
def Followed (n : ℕ) (m : Messenger) (userId : ℕ) (job : DeliveryJob) :
    Except Fault Unit → Care → Prop
  | .ok _, q => Looked q
  | .error _, q => Owed n m userId job q ∧ q.trouble = .here

theorem accepts_jobs (jobs : List DeliveryJob) (h : Looked (jobs.foldl (Care.queues n m userId) q))
    (hcut : q.cut = .loose) (hjobs : ∀ x ∈ jobs, x.kind = .send ∧ x.tries = 0) :
    Accepts (careMonitor n m userId) (.forEach (fun next => issue (.publish next 0)) jobs) q
      (Followed n m userId job) := by
  induction jobs generalizing q with
  | nil => exact h
  | cons next jobs ih =>
      obtain ⟨hkind, htries⟩ := hjobs next List.mem_cons_self
      show Accepts _ (issue _ >>= _) _ _
      rw [accepts_bind]
      refine accepts_publish (by omega) ?_ (fun e hs => ?_)
      · exact ih h hcut fun x hx => hjobs x (List.mem_cons_of_mem _ hx)
      · -- ids are loose: the publish of a send may not fail
        simp [strands, hcut, hkind] at hs

/-- **What is queued next.** -/
theorem accepts_follow {outcome : QueuedOutcome} (h : Follows n m userId job outcome q)
    (htries : job.tries ≤ q.trouble.tries) :
    Accepts (careMonitor n m userId) (follow job outcome) q (Followed n m userId job) := by
  cases outcome with
  | done => exact h
  | retry time pause => exact accepts_publishLater htries h fun e _ _ => ⟨Owed.calm h (.hurt q), rfl⟩
  | next other =>
      refine accepts_publish (Nat.zero_le _) (LookedIn.calm h (.queues q _)) (fun e _ => ?_)
      exact ⟨(Looked.owed h).calm (.hurt q), rfl⟩
  | digest user time pause =>
      refine accepts_publishLater (Nat.zero_le _) h.1 (fun e _ hs => ?_)
      rcases h.2 with hcut | howed
      · simp [strands, hcut] at hs
      · exact ⟨howed.calm (.hurt q), rfl⟩
  | jobs jobs => exact accepts_jobs jobs h.1 h.2.1 h.2.2

theorem accepts_followOrRequeue {outcome : QueuedOutcome}
    (h : Follows n m userId job outcome q) (htries : job.tries ≤ q.trouble.tries)
    (hmessage : message.tries ≤ q.trouble.tries)
    (hsame : ∀ q : Care, q.queues n m userId message = q.queues n m userId job) :
    Accepts (careMonitor n m userId) (followOrRequeue message job outcome) q (fun _ q' => Looked q') := by
  unfold followOrRequeue
  rw [accepts_bind, accepts_attempt]
  apply accepts_mono (accepts_aged (accepts_follow h htries))
  rintro out q' ⟨hout, _, hage⟩
  cases out with
  | ok _ => exact hout
  | error e =>
      refine accepts_issue (hmessage.trans hage) (fun _ _ => ?_) (fun e he => ?_)
      · show Looked { q'.queues n m userId message with trouble := _, cut := _ }
        rw [hsame q']
        exact hout.1
      · rcases he with ⟨hf, _⟩ | ⟨hf, _⟩ <;> cases hf

/-- **A job handled to its end leaves the notice looked after.** -/
theorem accepts_handle (h : Owed n m userId job q) (hcut : q.cut = .start job.kind)
    (hnew : q.trouble ≠ .here) (htries : job.tries ≤ q.trouble.tries) :
    Accepts (careMonitor n m userId) (handle window job) q (fun _ q' => Looked q') := by
  unfold handle
  rw [accepts_bind, accepts_attempt]
  apply accepts_mono (accepts_aged (accepts_work h hcut))
  rintro out q' ⟨hout, hearlier, hage⟩
  cases out with
  | ok outcome => exact accepts_followOrRequeue hout (htries.trans hage) (htries.trans hage) fun _ => rfl
  | error e =>
      obtain ⟨howed, hhere⟩ := hout
      -- the step that failed is the only one, so the job was not tried before
      have hfirst : job.tries = 0 := by
        cases ht : q.trouble with
        | none =>
            rw [ht] at htries
            exact Nat.le_zero.mp htries
        | here => exact absurd ht hnew
        | earlier =>
            rw [hearlier ht] at hhere
            cases hhere
      show Accepts _ (if _ then _ else _) _ _
      rw [if_neg (by rw [hfirst]; decide)]
      rw [accepts_bind]
      apply accepts_dateNow
      intro now
      refine accepts_followOrRequeue howed ?_ ?_ fun _ => rfl
      · rw [hhere]
        show job.tries + 1 ≤ 1
        omega
      · omega

/-- A job taken off the queue is in hand. -/
theorem calm_takes (q : Care) (job : DeliveryJob) (trouble : Trouble) (cut : Cut) :
    Calm q (Care.queues n m userId
      { q.takes n m userId job with trouble := trouble, cut := cut } job) where
  pending := id
  inHash := rfl
  held := rfl
  flagged := rfl
  summary hs := by
    simp only [Care.queues, Care.takes, hs]
    cases isDigest m userId job <;> rfl
  send hs := by
    simp only [Care.queues, Care.takes, hs]
    cases isSend n m job <;> rfl

/-- **One job of the queue, to its end.** -/
theorem accepts_consume (x : Messenger) (h : Looked q) :
    Accepts (careMonitor n m userId) (consume window x) q (fun _ q' => Looked q') := by
  unfold consume
  rw [accepts_bind]
  refine accepts_issue trivial (fun found hfound => ?_) (fun e he => ?_)
  · cases found with
    | none => exact h
    | some job =>
        have htries : job.tries ≤ q.trouble.tries := hfound job rfl
        have hnext : (careMonitor n m userId).next q (.receive x) (.ok (some job)) =
            { q.takes n m userId job with
              trouble := if q.trouble = .none then .none else .earlier
              cut := .start job.kind } := rfl
        rw [hnext]
        refine accepts_handle ?_ rfl ?_ ?_
        · exact h.calm (calm_takes q job _ _)
        · show (if _ then _ else _) ≠ Trouble.here
          split <;> decide
        · show job.tries ≤ Trouble.tries (if _ then _ else _)
          cases ht : q.trouble <;> rw [ht] at htries <;> exact htries
  · rcases he with ⟨hf, _⟩ | ⟨hf, _⟩ <;> cases hf

end Job

end TransportBackend.NoticeFault
