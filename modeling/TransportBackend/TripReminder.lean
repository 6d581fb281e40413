import TransportBackend.TripRevival

/-!
# Delivery reminders over a run

`remindDeliveries` takes a trip for due when its last reminder, or else its start, lies far enough
back.  The last reminder is a column of the request's row, the row outlives its trips, and no
operation clears the column: a new trip of the same driver and load inherits the reminder of the
old one.

* `sentNotices`, `tripStart`, `lastReminder` — what was sent and when, read off the run;
* `RemindKept` — the row's two columns are the start and the last reminder of the running trip;
* `reminders_follow_the_trip` — **no reminder is early and none is skipped**, in every run in which
  a trip starts only on a request never reminded before.
-/

namespace TransportBackend.TripReminder

open TransportBackend.AtomicProgram
open TransportBackend.AtomicProgram.Prog
open TransportBackend.KeyedTable
open TransportBackend.TripFareRules
open TransportBackend.TripStore
open TransportBackend.TripService
open TransportBackend.TripRun
open TransportBackend.TripEffect
open TransportBackend.TripMoves
open TransportBackend.TripInvariant
open TransportBackend.TripRevival

/-! ### Reading a run -/

/-- The notices an operation sent, latest first. -/
def sentNotices (m : Moment) : List Notice :=
  m.after.outbox.take (m.after.outbox.length - m.before.outbox.length)

/-- A reminder about this request was sent at this moment. -/
def remindedIn (m : Moment) (id : ℕ) : Bool :=
  match m.op with
  | .remindDeliveries _ => (sentNotices m).any (·.requestId = id)
  | _ => false

/-- When the latest trip of this request started. -/
def tripStart : List Moment → ℕ → Option ℕ
  | [], _ => none
  | m :: earlier, id => if StartedAt m id then some m.time else tripStart earlier id

/-- When the last reminder for the latest trip of this request was sent. -/
def lastReminder : List Moment → ℕ → Option ℕ
  | [], _ => none
  | m :: earlier, id =>
      if StartedAt m id then none
      else if remindedIn m id then some m.time
      else lastReminder earlier id

/-- A trip starts only on a request never reminded before. -/
def Unreminded (_ : List Moment) (m : Moment) : Prop :=
  match m.op with
  | .decide _ _ id true _ =>
      (m.before.requests.get id).bind CargoRequest.deliveryRemindedAt = none
  | .respondOffer _ id true =>
      (m.before.requests.get id).bind CargoRequest.deliveryRemindedAt = none
  | _ => True

/-! ### One operation -/

variable {cfg : Services} {t : ℕ} {op : TripOp} {T T' : Tables} {r r' : CargoRequest}

/-- A reminder run whole: the trips due, each saved and its company told. -/
theorem remindDeliveries_step (cfg : Services) {s : Store} (hs : Sound s.toTables t) (days : ℕ) :
    SavedEach (CargoRequest.reminded t) (fun r => [reminderNotice t r])
      (s.tripsDue ((t : ℤ) - days * dayMs)) (atTime t s)
      (step cfg t (.remindDeliveries days) s).2 := by
  have hafter : (programOf cfg (.remindDeliveries days)).After exec (atTime t s)
      (fun _ s' => SavedEach (CargoRequest.reminded t) (fun r => [reminderNotice t r])
        (s.tripsDue ((t : ℤ) - days * dayMs)) (atTime t s) s')
      (fun s' => SavedEach (CargoRequest.reminded t) (fun r => [reminderNotice t r])
        (s.tripsDue ((t : ℤ) - days * dayMs)) (atTime t s) s') :=
    after_unanswered.mpr
      (after_remindDeliveries (show Sound (atTime t s).toTables (atTime t s).clock from hs) days
        fun _ hsaved _ => hsaved)
  exact hafter.store

/-- What a reminder run sends: one notice for each trip due. -/
theorem mem_sentNotices {s : Store} (hs : Sound s.toTables t) (days : ℕ) {n : Notice} :
    n ∈ sentNotices ⟨t, .remindDeliveries days, s, (step cfg t (.remindDeliveries days) s).2⟩ ↔
      ∃ r ∈ s.tripsDue ((t : ℤ) - days * dayMs), n = reminderNotice t r := by
  have hsaved := remindDeliveries_step cfg hs days
  simp only [sentNotices, hsaved.outbox]
  have hout : (atTime t s).outbox = s.outbox := rfl
  rw [hout, List.length_append, Nat.add_sub_cancel, List.take_left]
  simp

/-- The reminder column is the one the row had, or is set now by a reminder. -/
theorem RowStep.remindedAt (h : RowStep t T op r r') (hop : ∀ days, op ≠ .remindDeliveries days) :
    r'.deliveryRemindedAt = r.deliveryRemindedAt := by
  cases h with
  | reminded hs hdue => exact absurd rfl (hop _)
  | delivered hs hsettle => rcases hsettle with rfl | ⟨percent, rfl⟩ <;> rfl
  | _ => rfl

/-- A reminder run tells about a request exactly when its trip is due. -/
theorem remindedIn_iff {s : Store} (hs : Sound s.toTables t) (days : ℕ) (hr : Has s.toTables r) :
    remindedIn ⟨t, .remindDeliveries days, s, (step cfg t (.remindDeliveries days) s).2⟩ r.id =
      true ↔ r ∈ s.tripsDue ((t : ℤ) - days * dayMs) := by
  simp only [remindedIn, List.any_eq_true, decide_eq_true_eq, mem_sentNotices hs days]
  constructor
  · rintro ⟨_, ⟨x, hx, rfl⟩, hid⟩
    rwa [← (mem_tripsDue.mp hx).1.unique hr hid]
  · intro hmem
    exact ⟨_, ⟨r, hmem, rfl⟩, rfl⟩

/-- What a reminder run leaves in the reminder column. -/
theorem reminded_column {s : Store} (hs : Sound s.toTables t) (days : ℕ) (hr : Has s.toTables r)
    (hr' : Has (step cfg t (.remindDeliveries days) s).2.toTables r') (hid : r'.id = r.id) :
    r'.deliveryRemindedAt =
      if remindedIn ⟨t, .remindDeliveries days, s, (step cfg t (.remindDeliveries days) s).2⟩ r.id
        then some t else r.deliveryRemindedAt := by
  have hrow := (remindDeliveries_step cfg hs days).rows r.id
  rw [← hid, hr', hid] at hrow
  have hget : (atTime t s).requests.get r.id = some r := hr
  rw [hget, Option.map_some, Option.some.injEq] at hrow
  rw [hrow]
  by_cases hdue : r ∈ s.tripsDue ((t : ℤ) - days * dayMs)
  · rw [if_pos hdue, if_pos ((remindedIn_iff hs days hr).mpr hdue)]
    rfl
  · rw [if_neg hdue, if_neg fun hc => hdue ((remindedIn_iff hs days hr).mp hc)]

/-! ### The invariant of a run -/

/-- The row of a running trip holds the trip's start and its last reminder, none before the
start. -/
def RemindKept (past : List Moment) (s : Store) : Prop :=
  ∀ r, Has s.toTables r → r.status = .accepted → ∃ start, r.decidedAt = some start ∧
    start ≤ s.clock ∧ tripStart past r.id = some start ∧
    r.deliveryRemindedAt = lastReminder past r.id ∧
    ∀ last, lastReminder past r.id = some last → start ≤ last

theorem Starts.unreminded {s : Store} {s' : Store} {past : List Moment}
    (h : Starts t s.toTables op r) (hr : Has s.toTables r)
    (hok : Unreminded past ⟨t, op, s, s'⟩) : r.deliveryRemindedAt = none := by
  have hget : s.requests.get r.id = some r := hr
  have hnone : (s.requests.get r.id).bind CargoRequest.deliveryRemindedAt = none := by
    cases h with
    | byCompany hs havail => exact hok
    | byDriver hactive => exact hok
  rw [hget] at hnone
  exact hnone

theorem Starts.not_reminder {s : Store} (h : Starts t s.toTables op r) (days : ℕ) :
    op ≠ .remindDeliveries days := by
  rintro rfl
  cases h

theorem RemindKept.snoc {s : Store} {past : List Moment} (hs : Sound s.toTables t)
    (hkept : RemindKept past s) (ht : s.clock < t)
    (hok : Unreminded past ⟨t, op, s, (step cfg t op s).2⟩) :
    RemindKept (⟨t, op, s, (step cfg t op s).2⟩ :: past) (step cfg t op s).2 := by
  intro r' hr' hacc
  have hmove := move_step cfg hs op
  obtain ⟨k, hk, hid, _, hcase⟩ := running_cases hmove hr' hacc
  have hafter : statusIn (step cfg t op s).2 r'.id = some .accepted := by
    rw [statusIn_of_has hr', hacc]
  have hbefore : statusIn s r'.id = some k.status := by rw [← hid, statusIn_of_has hk]
  have hcolumn : (∀ days, op ≠ .remindDeliveries days) →
      r'.deliveryRemindedAt = k.deliveryRemindedAt := by
    intro hop
    obtain ⟨k', hk', hid', hstep⟩ := Move.row hmove hk
    rw [hr'.unique hk' (hid.symm.trans hid'.symm)]
    exact RowStep.remindedAt hstep hop
  rw [step_clock]
  rcases hcase with ⟨hkacc, hdec⟩ | ⟨hoff, hdec, hstart, _⟩
  · -- the trip ran before
    obtain ⟨start, hdecided, hle, hstarted, hremind, hlater⟩ := hkept k hk hkacc
    have hnot : ¬StartedAt ⟨t, op, s, (step cfg t op s).2⟩ r'.id :=
      fun hc => hc.1 (by rw [hbefore, hkacc])
    refine ⟨start, hdec.trans hdecided, by omega, ?_, ?_, ?_⟩
    · rw [tripStart, if_neg hnot, ← hid]
      exact hstarted
    · rw [lastReminder, if_neg hnot, ← hid, ← hremind]
      by_cases hop : ∃ days, op = .remindDeliveries days
      · obtain ⟨days, rfl⟩ := hop
        exact reminded_column hs days hk hr' hid.symm
      · have hno : remindedIn ⟨t, op, s, (step cfg t op s).2⟩ k.id = false := by
          cases op with
          | remindDeliveries days => exact absurd ⟨days, rfl⟩ hop
          | _ => rfl
        rw [hno, hcolumn fun days hc => hop ⟨days, hc⟩]
        rfl
    · intro last hlast
      rw [lastReminder, if_neg hnot, ← hid] at hlast
      split at hlast
      · cases hlast
        exact hle.trans ht.le
      · exact hlater last hlast
  · -- the trip starts now, on a row never reminded
    have hnow : StartedAt ⟨t, op, s, (step cfg t op s).2⟩ r'.id :=
      ⟨by rw [hbefore]; simpa using hoff, hafter⟩
    refine ⟨t, hdec, le_rfl, ?_, ?_, ?_⟩
    · rw [tripStart, if_pos hnow]
    · rw [lastReminder, if_pos hnow, hcolumn fun days => Starts.not_reminder hstart days]
      exact Starts.unreminded hstart hk hok
    · intro last hlast
      rw [lastReminder, if_pos hnow] at hlast
      cases hlast

theorem History.remindKept {s₀ s : Store} {past : List Moment} (h₀ : s₀.requests.rows = [])
    (h : History cfg Unreminded s₀ past s) : RemindKept past s := by
  refine History.invariant RemindKept (fun r hr => ?_) ?_ h
  · rw [← has_iff_mem, h₀] at hr
    cases hr
  · intro past s t op hrun hkept ht hok
    exact hkept.snoc ((History.sound h₀ hrun).later ht.le) ht hok

/-! ### Never early, none skipped -/

/-- **Delivery reminders follow the running trip**, in every run in which a trip starts only on a
request never reminded before: a request is told about exactly when its trip runs and both the
trip's start and its last reminder lie more than the given days back. -/
theorem reminders_follow_the_trip (cfg : Services) {s₀ s : Store} {past : List Moment}
    (h₀ : s₀.requests.rows = []) (h : History cfg Unreminded s₀ past s) (t days : ℕ)
    (ht : s.clock < t) :
    let m : Moment := ⟨t, .remindDeliveries days, s, (step cfg t (.remindDeliveries days) s).2⟩
    (∀ n ∈ sentNotices m, ∃ r ∈ s.requests.rows, n = reminderNotice t r) ∧
    ∀ r ∈ s.requests.rows, reminderNotice t r ∈ sentNotices m ↔
      r.status = .accepted ∧
      (∃ start, tripStart past r.id = some start ∧ start + days * dayMs < t) ∧
      ∀ last, lastReminder past r.id = some last → last + days * dayMs < t := by
  have hs := (History.sound h₀ h).later ht.le
  simp only [has_iff_mem, mem_sentNotices hs days]
  refine ⟨fun n hn => ?_, fun r hr => ?_⟩
  · obtain ⟨r, hr, rfl⟩ := hn
    exact ⟨r, (mem_tripsDue.mp hr).1, rfl⟩
  have hmem : (∃ x ∈ s.tripsDue ((t : ℤ) - days * dayMs), reminderNotice t r = reminderNotice t x) ↔
      r ∈ s.tripsDue ((t : ℤ) - days * dayMs) := by
    constructor
    · rintro ⟨x, hx, he⟩
      rwa [hr.unique (mem_tripsDue.mp hx).1 (congrArg Notice.requestId he)]
    · intro hr
      exact ⟨r, hr, rfl⟩
  rw [hmem, mem_tripsDue]
  simp only [hr, true_and]
  refine and_congr_right fun hacc => ?_
  obtain ⟨start, hdec, _, hstart, hremind, hlater⟩ := History.remindKept h₀ h r hr hacc
  rw [CargoRequest.remindFrom, hremind, hdec, hstart]
  cases hlast : lastReminder past r.id with
  | none =>
      simp only [Option.none_or, Option.getD_some, Option.some.injEq, exists_eq_left']
      simp only [reduceCtorEq, false_imp_iff, implies_true, and_true]
      omega
  | some last =>
      have hle := hlater last hlast
      simp only [Option.some_or, Option.getD_some, Option.some.injEq, exists_eq_left',
        forall_eq']
      omega

/-- Driver 7 is handed the load, accepts it and is reminded after a day. -/
def firstTrip : List (ℕ × TripOp) :=
  [(86400004, .remindDeliveries 1), (2, .respondOffer 7 1 true), (1, .offer true 10 1 7 none)]

theorem reminders_follow_the_trip_again :
    let run := replay ⟨false, false⟩ oneLoad firstTrip
    tripStart run.1 1 = some 2 ∧ lastReminder run.1 1 = some 86400004 ∧
      ∀ r ∈ run.2.requests.rows, reminderNotice 172800005 r ∈
        sentNotices ⟨172800005, .remindDeliveries 1, run.2,
          (step ⟨false, false⟩ 172800005 (.remindDeliveries 1) run.2).2⟩ := by
  have hok : AllMeet Unreminded (replay ⟨false, false⟩ oneLoad firstTrip).1 :=
    ⟨trivial, rfl, trivial, trivial⟩
  have hstart : tripStart (replay ⟨false, false⟩ oneLoad firstTrip).1 1 = some 2 := by
    decide
  have hlast : lastReminder (replay ⟨false, false⟩ oneLoad firstTrip).1 1 = some 86400004 := by
    decide
  have hrows : ∀ r ∈ (replay ⟨false, false⟩ oneLoad firstTrip).2.requests.rows,
      r.id = 1 ∧ r.status = .accepted := by
    decide
  refine ⟨hstart, hlast, fun r hr => ?_⟩
  refine ((reminders_follow_the_trip ⟨false, false⟩ rfl
    (replay_meets ⟨false, false⟩ oneLoad (by decide) hok) 172800005 1 (by decide)).2 r hr).mpr ?_
  rw [(hrows r hr).1, hstart, hlast]
  exact ⟨(hrows r hr).2, ⟨2, rfl, by decide⟩, fun last hl => Option.some.inj hl ▸ by decide⟩

/-- The trip is called off and driver 7 is handed the load again. -/
def secondTrip : List (ℕ × TripOp) :=
  [(150000002, .respondOffer 7 1 true), (150000001, .offer true 10 1 7 none),
    (150000000, .cancelTrip 10 1)] ++ firstTrip

/-- The trip is called off and the same driver takes the load again: half a day into the new trip
its company is told, counting from the old trip's reminder. -/
theorem old_reminder_counts :
    ¬∀ past s, History ⟨false, false⟩ Unrestricted oneLoad past s → ∀ t days, s.clock < t →
      ∀ r ∈ s.requests.rows, reminderNotice t r ∈ sentNotices ⟨t, .remindDeliveries days, s,
          (step ⟨false, false⟩ t (.remindDeliveries days) s).2⟩ →
        ∃ start, tripStart past r.id = some start ∧ start + days * dayMs < t := by
  intro hclaim
  have hrun : Ordered oneLoad.clock secondTrip := by decide
  have hrow : ∃ r ∈ (replay ⟨false, false⟩ oneLoad secondTrip).2.requests.rows,
      reminderNotice 180000000 r ∈ sentNotices ⟨180000000, .remindDeliveries 1,
        (replay ⟨false, false⟩ oneLoad secondTrip).2,
        (step ⟨false, false⟩ 180000000 (.remindDeliveries 1)
          (replay ⟨false, false⟩ oneLoad secondTrip).2).2⟩ ∧
      tripStart (replay ⟨false, false⟩ oneLoad secondTrip).1 r.id = some 150000002 := by
    decide
  obtain ⟨r, hr, hsent, hstart⟩ := hrow
  obtain ⟨start, hstart', hlate⟩ := hclaim _ _ (replay_history ⟨false, false⟩ oneLoad hrun)
    180000000 1 (by decide) r hr hsent
  cases hstart.symm.trans hstart'
  exact absurd hlate (by decide)

end TransportBackend.TripReminder
