import TransportBackend.NoticeColumns
import TransportBackend.NoticeInterleaving

/-!
# The columns of a notice over whole runs

Calls run one after another in any order, each reading its rows itself, while time passes and loads
change between them and inside them.  Links and sends answer as they like at every step.

* `accepts_columnsProgram` — every call keeps to the monitor of a row;
* `sees_exec` — that monitor's row is the row stored;
* `columns_kept` — **every row stays in order**, and a messenger that sent the notice, was skipped
  or failed never changes again.

A company's suggestion goes through the same columns; here it is a notice whose load is not there.
-/

namespace TransportBackend.NoticeHistory

open TransportBackend.AtomicProgram
open TransportBackend.InterleavedRun
open TransportBackend.MonitoredProgram
open TransportBackend.KeyedTable
open TransportBackend.NoticeStore
open TransportBackend.NoticeService
open TransportBackend.NoticeMonitor
open TransportBackend.NoticeColumns
open TransportBackend.NoticeInterleaving (responds_exec readRows_stored readRows oneOpenLoad onBale
  noAnswer)

/-! ### The calls -/

/-- A call on a notice read afresh. -/
def freshly (id : ℕ) (call : LoadedNotice → Delivery Unit) : Delivery Unit := do
  match ← issue (.findWithListing .deliver id) with
  | none => pure ()
  | some row => call row

/-- The calls that change the delivery columns; a queue's job sends, sends a summary or edits. -/
inductive ColumnsCall where
  | deliver (id : ℕ)
  | retryDelivery (id now : ℕ)
  | handle (job : DeliveryJob)
  | failExpiredPending (createdBefore : ℕ)
  | scheduleRetry (ids : List ℕ) (time : ℕ)

def columnsProgram (window : ℕ) : ColumnsCall → Delivery Unit
  | .deliver id => freshly id deliver
  | .retryDelivery id now => freshly id fun row => retryDelivery row now
  | .handle job => handle window job
  | .failExpiredPending createdBefore => failExpiredPending createdBefore
  | .scheduleRetry ids time =>
      .forEach (fun ids => issue (.scheduleRetry ids time)) (ids.toChunks insertBatch)

/-- The machine of these calls. -/
def columnsMachine (window : ℕ) : Machine Resp Fault Store :=
  deliveryMachine (columnsProgram window)

section Calls

variable {n window : ℕ} {digests : Bool} {q : Sight}

theorem accepts_freshly {id : ℕ} {call : LoadedNotice → Delivery Unit} (hkept : Kept q.row)
    (hcall : ∀ row q', (row.id = n → JustRead row q') →
      Accepts (columnsMonitor n digests) (call row) q' (fun _ _ => True)) :
    Accepts (columnsMonitor n digests) (freshly id call) q (fun _ _ => True) := by
  unfold freshly
  rw [accepts_bind]
  apply accepts_findRow hkept
  · intro q' _
    trivial
  · intro row q' _ _ hread
    exact hcall row q' hread

theorem accepts_sendJob {job : DeliveryJob} (hkept : Kept q.row) (hkind : job.kind = .send) :
    Accepts (columnsMonitor n digests) (handle window job) q (fun _ _ => True) := by
  apply accepts_handle_of_work (P := fun _ => True) keeps_aside
  unfold work
  rw [hkind]
  exact accepts_deliverQueued hkept

/-- **Every call keeps to the rules of a row.** -/
theorem accepts_columnsProgram (call : ColumnsCall) (hkept : Kept q.row) :
    Accepts (columnsMonitor n true) (columnsProgram window call) q (fun _ _ => True) := by
  cases call with
  | deliver id => exact accepts_freshly hkept fun row q' hread => accepts_deliver hread
  | retryDelivery id now => exact accepts_freshly hkept fun row q' hread => accepts_deliver hread
  | handle job =>
      cases hkind : job.kind with
      | send => exact accepts_sendJob hkept hkind
      | edit =>
          apply accepts_handle_of_work (P := fun _ => True) keeps_aside
          unfold work
          rw [hkind]
          exact (keeps_editQueued keeps_aside).accepts fun _ _ _ => trivial
      | digest =>
          apply accepts_handle_of_work (P := fun _ => True) keeps_aside
          unfold work
          rw [hkind]
          exact accepts_deliverDigest hkept
  | failExpiredPending createdBefore =>
      refine accepts_forEach (fun _ _ => True) ?_ trivial fun _ _ => trivial
      intro m rest q' _ _
      exact accepts_issue rfl (fun _ _ => trivial) fun _ hf => hf.elim
  | scheduleRetry ids time =>
      refine accepts_forEach (fun _ _ => True) ?_ trivial fun _ _ => trivial
      intro m rest q' _ _
      exact accepts_issue rfl (fun _ _ => trivial) fun _ hf => hf.elim

/-! ### The monitor follows the store -/

theorem respondsNow_exec (w : World) (c : Cmd) {s : Store} (h : s.notices.get n = some q.row) :
    RespondsNow n q c (exec w c s).1 := by
  have hstored : ∀ (c : Cmd) (row : LoadedNotice), row ∈ readRows (.act 0 c (exec w c s).1) →
      row.id = n → row.toCargoNotification = q.row := by
    intro c row hrow hid
    have hget := readRows_stored hrow
    rw [hid, h] at hget
    exact (Option.some.inj hget).symm
  have hresponds := responds_exec w c s
  cases hr : (exec w c s).1 with
  | error e =>
      rw [hr] at hresponds
      exact hresponds
  | ok a =>
      cases c with
      | findWithListing use id =>
          cases hr
          intro row hrow
          obtain ⟨stored, hget, rfl⟩ := Option.map_eq_some_iff.mp hrow
          refine ⟨Table.key_of_get hget, ?_⟩
          rintro rfl
          rw [h] at hget
          exact (Option.some.inj hget).symm
      | findManyWithListing ids =>
          have hnodup := hresponds
          cases hr
          exact ⟨hnodup, fun row hrow => hstored (.findManyWithListing ids) row hrow⟩
      | _ => trivial

/-- The monitor's row after a command is the row stored. -/
theorem sees_exec (w : World) (c : Cmd) {s : Store} (h : s.notices.get n = some q.row) :
    (exec w c s).2.notices.get n = some (q.sees n c (exec w c s).1).row := by
  cases c with
  | updateDelivery id m changes =>
      have hget := get_updateDelivery s id m changes n
      show (s.updateDelivery id m changes).notices.get n =
        some (if id = n then { q with row := q.row.update m changes } else q).row
      rw [hget]
      by_cases hid : id = n
      · rw [if_pos hid.symm, if_pos hid, hid, h]
        rfl
      · rw [if_neg fun hn => hid hn.symm, if_neg hid]
        exact h
  | failExpired m createdBefore =>
      exact (get_mapNotices s _ (Store.expired_id m createdBefore) n).trans (by rw [h]; rfl)
  | scheduleRetry ids time =>
      exact (get_mapNotices s _ (Store.scheduled_id ids time) n).trans (by rw [h]; rfl)
  | insertIgnoringDuplicates rows => exact get_foldl_insertIgnoring rows h
  | findWithListing use id =>
      cases use with
      | edit => exact h
      | deliver =>
          show s.notices.get n = some (Sight.row (if id = n then _ else q))
          split <;> exact h
  | canReceiveAnnouncement user publisher trip =>
      show s.notices.get n = some (Sight.row (if user = q.row.userId then _ else q))
      split <;> exact h
  | findLink user m =>
      show s.notices.get n = some (q.sees n (.findLink user m) (.ok (w.link user m))).row
      cases w.link user m with
      | some chat => exact h
      | none =>
          show s.notices.get n = some (Sight.row (if user = q.row.userId then _ else q))
          split <;> exact h
  | send m chat ids =>
      show s.notices.get n = some (q.sees n (.send m chat ids) w.sent).row
      cases w.sent with
      | ok a => exact h
      | error e =>
          show s.notices.get n = some (Sight.row (if n ∈ ids then _ else q))
          split <;> exact h
  | setIfAbsent key ttl =>
      simp only [exec]
      split <;> exact h
  | publish job delay =>
      simp only [exec]
      split <;> exact h
  | receive m =>
      simp only [exec]
      split <;> exact h
  | nack job requeue =>
      simp only [exec]
      cases requeue <;> exact h
  | _ => exact h

/-- A command the monitor allows changes no messenger that is settled. -/
theorem sees_settled {c : Cmd} (hallowed : (columnsMonitor n digests).allowed q c)
    (hkept : Kept q.row) (r : Resp c) :
    Kept (q.sees n c r).row ∧
      ∀ m, q.row.status m ≠ .pending → (q.sees n c r).row.columns m = q.row.columns m := by
  have hsame : ∀ {q' : Sight}, q'.row = q.row →
      Kept q'.row ∧ ∀ m, q.row.status m ≠ .pending → q'.row.columns m = q.row.columns m := by
    intro q' hq'
    rw [hq']
    exact ⟨hkept, fun _ _ => rfl⟩
  by_cases hblind : blind c = true
  · exact hsame (congrArg Prod.fst ((blind_seen hblind n digests q).2 r))
  · cases c with
    | updateDelivery id m changes =>
        by_cases hid : id = n
        · obtain ⟨hpending, hkept', _⟩ := hallowed hid
          rw [show q.sees n (.updateDelivery id m changes) r =
            { q with row := q.row.update m changes } from if_pos hid]
          refine ⟨hkept', fun x hx => columns_update_of_ne ?_⟩
          rintro rfl
          exact hx hpending
        · exact hsame (congrArg Sight.row (if_neg hid))
    | failExpired m createdBefore =>
        refine ⟨kept_expired hkept m createdBefore, fun x hx => ?_⟩
        show (Store.expired m createdBefore q.row).columns x = _
        unfold Store.expired
        split
        · rename_i hold
          apply columns_update_of_ne
          rintro rfl
          exact hx hold.1
        · rfl
    | scheduleRetry ids time =>
        refine ⟨kept_scheduled hkept ids time, fun x hx => ?_⟩
        show (Store.scheduled ids time q.row).columns x = _
        unfold Store.scheduled
        split
        · show { q.row.columns x with
            nextRetryAt := if q.row.status x = NotificationDeliveryStatus.pending then some time
              else none } = _
          rw [if_neg hx, ← hkept.settled x hx]
        · rfl
    | findWithListing use id =>
        cases use with
        | edit => exact absurd rfl hblind
        | deliver =>
            cases r with
            | error e => exact hsame rfl
            | ok found =>
                apply hsame
                show Sight.row (if id = n then _ else q) = _
                split <;> rfl
    | canReceiveAnnouncement user publisher trip =>
        cases r with
        | error e => exact hsame rfl
        | ok isOpen =>
            apply hsame
            show Sight.row (if user = q.row.userId then _ else q) = _
            split <;> rfl
    | findManyWithListing ids => exact hsame rfl
    | _ => exact absurd rfl hblind

end Calls

/-! ### Whole runs -/

/-- A row as it is made: every messenger pending or, when it is not linked, skipped. -/
structure AsMade (n : ℕ) (row : CargoNotification) : Prop where
  made : ∃ (new : NewCargoNotification) (now : ℕ), row = new.row n now ∧
    ∀ m, new.status m = .pending ∨ new.status m = .skipped

theorem AsMade.kept {n : ℕ} {row : CargoNotification} (h : AsMade n row) : Kept row := by
  obtain ⟨new, now, rfl, hnew⟩ := h.made
  have hstatus : ∀ m, (new.row n now).status m = new.status m := fun _ => rfl
  refine ⟨?_, fun _ => Nat.zero_le _, fun _ _ => by simp [NewCargoNotification.row, maxDeliveryAttempts],
    fun _ _ => rfl⟩
  intro m m' hm
  rw [hstatus] at hm
  rcases hnew m with h | h <;> rw [h] at hm <;> cases hm

section Runs

variable {window n : ℕ} {s₀ : Store} {row₀ : CargoNotification}

/-- The monitor's row is the row stored, and in order. -/
def Follows (n : ℕ) (_ : List (Event Resp)) (_ : ℕ) (q : Sight) (s : Store) : Prop :=
  s.notices.get n = some q.row ∧ Kept q.row

theorem follows_run {tr : List (Event Resp)} {b : Conf Resp Fault Store}
    (h₀ : s₀.notices.get n = some row₀) (hkept : Kept row₀)
    (h : (columnsMachine window).Run Serial (.start s₀) tr b) :
    ∃ pid q, Follows n tr pid q b.store ∧ ∀ x p, b.pool[x]? = some p → p.finished = false →
      x = pid ∧ Accepts (columnsMonitor n true) p q (fun _ _ => True) := by
  refine Run.serial (Follows n) (fun _ _ _ h => h) ⟨0, .first row₀, h₀, hkept⟩ ?_ ?_ ?_ h
  · intro tr pid q b call p s' hI hb _
    cases hb
    exact ⟨.first q.row, hI, accepts_columnsProgram call hI.2⟩
  · intro tr pid q b o s' hI ho _
    cases ho
    cases o <;> exact hI
  · intro tr pid q b w c r s' hI hallowed hx _
    obtain ⟨rfl, rfl⟩ : (exec w c b.store).1 = r ∧ (exec w c b.store).2 = s' :=
      Prod.mk.inj (Option.some.inj hx)
    exact ⟨respondsNow_exec w c hI.1, sees_exec w c hI.1, (sees_settled hallowed hI.2 _).1⟩

/-- A settled messenger stays as it is. -/
def Stays (n : ℕ) (b c : Conf Resp Fault Store) : Prop :=
  ∀ row, b.store.notices.get n = some row → ∃ row', c.store.notices.get n = some row' ∧
    ∀ m, row.status m ≠ .pending → row'.columns m = row.columns m

theorem stays_step {tr : List (Event Resp)} {b c : Conf Resp Fault Store} {e : Event Resp}
    {l : (columnsMachine window).Label} (h₀ : s₀.notices.get n = some row₀) (hkept : Kept row₀)
    (h : (columnsMachine window).Run Serial (.start s₀) tr b)
    (hs : (columnsMachine window).step b l = some (e, c)) : Stays n b c := by
  obtain ⟨pid, q, ⟨hq, hk⟩, hpool⟩ := follows_run h₀ hkept h
  intro row hrow
  rw [hq] at hrow
  obtain rfl := Option.some.inj hrow
  cases l with
  | outside o =>
      obtain ⟨s, ho, _, rfl⟩ := Machine.step_outside hs
      cases ho
      refine ⟨q.row, ?_, fun _ _ => rfl⟩
      cases o <;> exact hq
  | start call =>
      obtain ⟨p, s, hb, _, rfl⟩ := Machine.step_start hs
      cases hb
      exact ⟨q.row, hq, fun _ _ => rfl⟩
  | act x w =>
      obtain ⟨cmd, k, r, s, hcall, hx, _, rfl⟩ := Machine.step_act hs
      obtain ⟨rfl, rfl⟩ : (exec w cmd b.store).1 = r ∧ (exec w cmd b.store).2 = s :=
        Prod.mk.inj (Option.some.inj hx)
      obtain ⟨_, hallowed, _⟩ := hpool x _ hcall rfl
      exact ⟨_, sees_exec w cmd hq, (sees_settled hallowed hk _).2⟩

theorem Stays.trans {a b c : Conf Resp Fault Store} (hab : Stays n a b) (hbc : Stays n b c) :
    Stays n a c := by
  intro row hrow
  obtain ⟨row', hrow', hsame⟩ := hab row hrow
  obtain ⟨row'', hrow'', hsame'⟩ := hbc row' hrow'
  refine ⟨row'', hrow'', fun m hm => ?_⟩
  have hm' : row'.status m ≠ .pending := by
    rw [CargoNotification.status, hsame m hm]
    exact hm
  rw [hsame' m hm', hsame m hm]

/-- **The delivery columns over whole runs.**  A notice as it was made stays in order through every
run of calls one after another, and what a messenger's status, attempts and next retry are once it is
not pending they are at every later point. -/
theorem columns_kept {x y : List (Event Resp) × Conf Resp Fault Store}
    (h₀ : s₀.notices.get n = some row₀) (hmade : AsMade n row₀)
    (hrun : (columnsMachine window).Run Serial (.start s₀) x.1 x.2)
    (hlater : (columnsMachine window).Later Serial x y) :
    ∃ row row', x.2.store.notices.get n = some row ∧ y.2.store.notices.get n = some row' ∧
      Kept row ∧ Kept row' ∧ ∀ m, row.status m ≠ .pending →
        row'.status m = row.status m ∧ (row'.columns m).attempts = (row.columns m).attempts ∧
          (row'.columns m).nextRetryAt = (row.columns m).nextRetryAt := by
  have hkept := hmade.kept
  obtain ⟨_, q, ⟨hq, hk⟩, _⟩ := follows_run h₀ hkept hrun
  obtain ⟨_, q', ⟨hq', hk'⟩, _⟩ := follows_run h₀ hkept (Machine.Run.later hrun hlater)
  have hstays : Stays n x.2 y.2 := by
    apply Machine.Run.relates (Stays n) _ _ hrun hlater
    · intro b row hrow
      exact ⟨row, hrow, fun _ _ => rfl⟩
    · intro tr b l e c b₀ hb hs _ hR
      exact hR.trans (stays_step h₀ hkept hb hs)
  obtain ⟨row', hrow', hsame⟩ := hstays q.row hq
  rw [hq'] at hrow'
  obtain rfl := Option.some.inj hrow'
  refine ⟨q.row, q'.row, hq, hq', hk, hk', fun m hm => ?_⟩
  have hcolumns := hsame m hm
  exact ⟨congrArg DeliveryColumns.status hcolumns, by rw [hcolumns], by rw [hcolumns]⟩

end Runs

/-! ### A notice on two messengers -/

/-- Driver 7 was on Bale and Eitaa when the notice was made. -/
def onTwo : NewCargoNotification where
  userId := 7
  listingId := 1
  status m := if m = .bale ∨ m = .eitaa then .pending else .skipped

theorem onTwo_asMade : AsMade 1 (onTwo.row 1 100000000) := by
  refine ⟨onTwo, 100000000, rfl, fun m => ?_⟩
  unfold onTwo
  dsimp only
  split
  · exact .inl rfl
  · exact .inr rfl

def oneNotice : Store :=
  { oneOpenLoad with notices := Table.empty.put (onTwo.row 1 100000000) }

/-- A call takes its next steps in the same world. -/
def goes (window pid steps : ℕ) (w : World) : List (columnsMachine window).Label :=
  List.replicate steps (.act pid w)

/-- Bale does not answer the first time, so Eitaa is skipped; a minute later Bale takes it. -/
def secondTry : List (columnsMachine 120).Label :=
  [[.start (.deliver 1)], goes 120 0 5 onBale, goes 120 0 1 noAnswer, goes 120 0 3 onBale,
    [.outside (.wait 60000), .start (.retryDelivery 1 100060000)], goes 120 1 7 onBale].flatten

/-- A sweep and a failed queue later. -/
def muchLater : List (columnsMachine 120).Label :=
  [[.start (.failExpiredPending 200000000)], goes 120 2 5 onBale,
    [.start (.scheduleRetry [1] 200000000)], goes 120 3 1 onBale].flatten

theorem columns_kept_second_try :
    ∃ x y, (columnsMachine 120).Run Serial (.start oneNotice) x.1 x.2 ∧
      (columnsMachine 120).Later Serial x y ∧
      ∃ row row', x.2.store.notices.get 1 = some row ∧ y.2.store.notices.get 1 = some row' ∧
        row.status .bale = .sent ∧ (row.columns .bale).attempts = 2 ∧
        row'.status .bale = .sent ∧ (row'.columns .bale).attempts = 2 := by
  have hplay : ((columnsMachine 120).play Serial [] (.start oneNotice) secondTry).any (fun x =>
      (x.2.store.notices.get 1).any (fun row =>
        row.status .bale = .sent ∧ (row.columns .bale).attempts = 2) ∧
      ((columnsMachine 120).play Serial x.1 x.2 muchLater).isSome) = true := by
    decide
  simp only [Option.any_eq_true, decide_eq_true_eq, Option.isSome_iff_exists] at hplay
  obtain ⟨x, hx, ⟨row, hrow, hsent, htwo⟩, y, hy⟩ := hplay
  have hrun := Machine.play_run .nil hx
  have hlater := Machine.play_later hy
  obtain ⟨row₁, row', hrow₁, hrow', _, _, hsame⟩ :=
    columns_kept (show oneNotice.notices.get 1 = some (onTwo.row 1 100000000) from rfl)
      onTwo_asMade hrun hlater
  rw [hrow] at hrow₁
  obtain rfl := Option.some.inj hrow₁
  obtain ⟨hstatus, hattempts, _⟩ := hsame .bale (by rw [hsent]; decide)
  exact ⟨x, y, hrun, hlater, row, row', hrow, hrow', hsent, htwo, hstatus.trans hsent,
    hattempts.trans htwo⟩

end TransportBackend.NoticeHistory
