import TransportBackend.NoticeMonitor

/-!
# A notice under interleaving

The consumers of the delivery queue, the sweep of the retry worker and the announcements as
processes over one store, every repository call, Redis command, publish and send one atomic step.

Each call alone sends a notice once (`accepts_noticeProgram`).  Across calls that is not enough: a
sweep that read a notice before another call sent it sends it again (`stale_sweep_sends_twice`).  It
is enough in every run in which no call reads a notice to deliver it while another call that has
read it is still running (`notice_sent_once`).
-/

namespace TransportBackend.NoticeInterleaving

open TransportBackend.AtomicProgram
open TransportBackend.InterleavedRun
open TransportBackend.MonitoredProgram
open TransportBackend.KeyedTable
open TransportBackend.NoticeStore
open TransportBackend.NoticeService
open TransportBackend.NoticeMonitor
open TransportBackend.TripStore (CargoListing)

/-! ### The machine -/

/-- Consumers, the retry worker and announcements, interleaved. -/
def noticeMachine (window : ℕ) : Machine Resp Fault Store := deliveryMachine (noticeProgram window)

/-! ### Reading a run -/

/-- The call that acted. -/
def actor : Event Resp → Option ℕ
  | .act pid _ _ => some pid
  | _ => none

/-- The rows a call read at this event to deliver them. -/
def readRows : Event Resp → List LoadedNotice
  | .act _ (.findWithListing .deliver _) (.ok row) => row.toList
  | .act _ (.findManyWithListing _) (.ok rows) => rows
  | .act _ (.findDueRetries _ _ _) (.ok rows) => rows
  | _ => []

/-- The notices a call read at this event to deliver them. -/
def readIds (e : Event Resp) : List ℕ := (readRows e).map (·.id)

/-- A message carrying the notice was sent at this event. -/
def carries (n : ℕ) : Event Resp → Bool
  | .act _ (.send _ _ ids) (.ok _) => n ∈ ids
  | _ => false

/-- The messages sent that carry the notice, over all messengers. -/
def sends (tr : List (Event Resp)) (n : ℕ) : ℕ := tr.countP (carries n)

/-- The call has read the notice to deliver it. -/
def HasRead (tr : List (Event Resp)) (pid n : ℕ) : Prop :=
  ∃ e ∈ tr, actor e = some pid ∧ n ∈ readIds e

instance (tr : List (Event Resp)) (pid n : ℕ) : Decidable (HasRead tr pid n) :=
  inferInstanceAs (Decidable (∃ e ∈ tr, actor e = some pid ∧ n ∈ readIds e))

/-- A call reads a notice to deliver it only when every other call that has read it has ended. -/
def ReadsAlone (tr : List (Event Resp)) (b : Conf Resp Fault Store) (e : Event Resp) : Prop :=
  ∀ n ∈ readIds e, ∀ other ∈ List.range b.pool.length, actor e ≠ some other →
    HasRead tr other n → ∀ p ∈ b.pool[other]?, p.finished = true

instance (tr : List (Event Resp)) (b : Conf Resp Fault Store) (e : Event Resp) :
    Decidable (ReadsAlone tr b e) :=
  inferInstanceAs (Decidable (∀ n ∈ readIds e, ∀ other ∈ List.range b.pool.length,
    actor e ≠ some other → HasRead tr other n → ∀ p ∈ b.pool[other]?, p.finished = true))

/-! ### Across calls -/

/-- The notice is stored as sent through this messenger. -/
def SentIn (s : Store) (n : ℕ) (m : Messenger) : Prop :=
  ∃ row, s.notices.get n = some row ∧ row.status m = .sent

/-- The notice is stored. -/
def Present (s : Store) (n : ℕ) : Prop := (s.notices.get n).isSome = true

theorem SentIn.present {s : Store} {n : ℕ} {m : Messenger} (h : SentIn s n m) : Present s n := by
  obtain ⟨row, hrow, _⟩ := h
  rw [Present, hrow]
  rfl

section Stored

variable {w : World} {c : Cmd} {s : Store} {n : ℕ} {m : Messenger}

theorem present_exec (h : Present s n) : Present (exec w c s).2 n := by
  obtain ⟨row, hrow⟩ := Option.isSome_iff_exists.mp h
  rcases exec_notice w c hrow with h | ⟨_, _, _, h⟩ | ⟨_, _, _, h⟩ | ⟨_, _, _, h⟩ <;>
    · rw [Present, h]
      rfl

/-- Only an update of this messenger can make the notice sent there, or undo it. -/
theorem sentIn_exec (hc : ∀ changes, c ≠ .updateDelivery n m changes) (h : Present s n) :
    SentIn (exec w c s).2 n m ↔ SentIn s n m := by
  obtain ⟨row, hrow⟩ := Option.isSome_iff_exists.mp h
  have hbefore : SentIn s n m ↔ row.status m = .sent := by
    simp only [SentIn, hrow, Option.some.injEq, exists_eq_left']
  rw [hbefore]
  rcases exec_notice w c hrow with h | ⟨m', changes, rfl, h⟩ | ⟨m', before, rfl, h⟩ |
    ⟨ids, time, rfl, h⟩ <;> simp only [SentIn, h, Option.some.injEq, exists_eq_left']
  · have hne : m ≠ m' := by
      rintro rfl
      exact hc changes rfl
    rw [status_update_of_ne hne]
  · exact sent_expired
  · rw [status_scheduled]

theorem exec_update (hp : Present s n) (changes : CargoNotificationDelivery) :
    ∃ row, s.notices.get n = some row ∧
      (exec w (.updateDelivery n m changes) s).2.notices.get n = some (row.update m changes) := by
  obtain ⟨row, hrow⟩ := Option.isSome_iff_exists.mp hp
  refine ⟨row, hrow, ?_⟩
  show (s.updateDelivery n m changes).notices.get n = _
  rw [get_updateDelivery, if_pos rfl, hrow]
  rfl

/-- An update to anything but SENT makes nothing sent. -/
theorem unsent_update (hp : Present s n) {changes : CargoNotificationDelivery}
    (hstatus : changes.status ≠ some .sent) (h : ∀ m, ¬SentIn s n m) (m' : Messenger) :
    ¬SentIn (exec w (.updateDelivery n m changes) s).2 n m' := by
  obtain ⟨row, hrow, hnew⟩ := exec_update (w := w) (m := m) hp changes
  rintro ⟨row', hrow', hsent⟩
  rw [hnew] at hrow'
  cases hrow'
  by_cases hm : m' = m
  · subst hm
    rw [status_update_self] at hsent
    cases hc : changes.status with
    | none => exact h m' ⟨row, hrow, by simpa [hc] using hsent⟩
    | some status =>
        rw [hc] at hsent hstatus
        exact hstatus (congrArg some hsent)
  · rw [status_update_of_ne hm] at hsent
    exact h m' ⟨row, hrow, hsent⟩

theorem sentIn_update (hp : Present s n) {changes : CargoNotificationDelivery}
    (hstatus : changes.status = some .sent) :
    SentIn (exec w (.updateDelivery n m changes) s).2 n m := by
  obtain ⟨row, hrow, hnew⟩ := exec_update (w := w) (m := m) hp changes
  refine ⟨_, hnew, ?_⟩
  rw [status_update_self, hstatus]
  rfl

end Stored

/-! ### The events that concern a notice -/

section Events

variable {w : World} {c : Cmd} {s : Store} {n pid : ℕ} {q : Phase}

theorem mem_byCreation {rows : List CargoNotification} {row : CargoNotification} :
    row ∈ Store.byCreation rows ↔ row ∈ rows := List.mem_insertionSort _

theorem nodup_loaded (rows : List CargoNotification) (s : Store)
    (h : (rows.map CargoNotification.id).Nodup) :
    ((rows.map s.loaded).map fun row => row.id).Nodup := by
  rw [List.map_map]
  exact h

theorem nodup_byCreation {rows : List CargoNotification}
    (h : (rows.map CargoNotification.id).Nodup) :
    ((Store.byCreation rows).map CargoNotification.id).Nodup :=
  ((List.perm_insertionSort _ rows).map CargoNotification.id).nodup_iff.mpr h

theorem responds_exec (w : World) (c : Cmd) (s : Store) : Responds c (exec w c s).1 := by
  have hfilter : ∀ p : CargoNotification → Bool,
      ((s.notices.rows.filter p).map CargoNotification.id).Nodup := fun p =>
    s.notices.nodup.sublist (List.filter_sublist.map _)
  cases c with
  | findManyWithListing ids => exact nodup_loaded _ s (nodup_byCreation (hfilter _))
  | findDueRetries now after take =>
      refine nodup_loaded _ s ?_
      exact (nodup_byCreation (hfilter _)).sublist ((List.take_sublist _ _).map _)
  | send m chat ids =>
      show Responds (.send m chat ids) w.sent
      cases w.sent <;> trivial
  | editMessage m key =>
      show Responds (.editMessage m key) w.edited
      cases w.edited <;> trivial
  | react m key =>
      show Responds (.react m key) w.edited
      cases w.edited <;> trivial
  | setIfAbsent key ttl =>
      simp only [exec]
      split <;> trivial
  | publish job delay =>
      simp only [exec]
      split <;> trivial
  | receive m =>
      simp only [exec]
      split <;> trivial
  | _ => trivial

/-- The rows read to be delivered are stored rows. -/
theorem readRows_stored {x : LoadedNotice} (h : x ∈ readRows (.act pid c (exec w c s).1)) :
    s.notices.get x.id = some x.toCargoNotification := by
  have hstored : ∀ y : CargoNotification, y ∈ s.notices.rows → x = s.loaded y →
      s.notices.get x.id = some x.toCargoNotification := by
    rintro y hy rfl
    exact Table.mem_rows.mp hy
  cases c with
  | findWithListing use id =>
      cases use with
      | edit => simp [readRows] at h
      | deliver =>
          obtain ⟨y, hy, rfl⟩ := Option.map_eq_some_iff.mp (Option.mem_toList.mp h)
          exact hstored y (Table.mem_of_get hy) rfl
  | findManyWithListing ids =>
      obtain ⟨y, hy, rfl⟩ := List.mem_map.mp h
      exact hstored y (List.mem_of_mem_filter (mem_byCreation.mp hy)) rfl
  | findDueRetries now after take =>
      obtain ⟨y, hy, rfl⟩ := List.mem_map.mp h
      exact hstored y (List.mem_of_mem_filter (mem_byCreation.mp (List.mem_of_mem_take hy))) rfl
  | _ => simp [readRows] at h

theorem unread_of_reads {r : Resp c} (h : readRows (.act pid c r) ≠ [])
    (hallowed : (noticeMonitor n).allowed q c) : q = .unread := by
  cases c with
  | findWithListing use id =>
      cases use with
      | deliver => exact hallowed
      | edit => exact absurd rfl h
  | findManyWithListing ids => exact hallowed
  | findDueRetries now after take => exact hallowed
  | _ => exact absurd rfl h

/-- A message carrying the notice is a send, and leads to what is owed. -/
theorem carries_send {r : Resp c} (h : carries n (.act pid c r) = true) :
    ∃ m, (∀ q, (noticeMonitor n).next q c r = .owed m) ∧
      (∀ q, (noticeMonitor n).allowed q c → q = .unsent) ∧ (exec w c s).2 = s := by
  cases c with
  | send m chat ids =>
      cases r with
      | error e => cases h
      | ok a =>
          have hmem : n ∈ ids := by simpa [carries] using h
          exact ⟨m, fun q => if_pos hmem, fun q hq => hq hmem, rfl⟩
  | _ => cases h

/-- Every other command leads where the rows it reads lead. -/
theorem next_eq_phaseIn {r : Resp c} (hsend : carries n (.act pid c r) = false)
    (hupdate : ∀ m changes, c ≠ .updateDelivery n m changes) :
    (noticeMonitor n).next q c r = phaseIn n q (readRows (.act pid c r)) := by
  cases c with
  | findWithListing use id =>
      cases use with
      | edit => rfl
      | deliver => cases r <;> rfl
  | findManyWithListing ids => cases r <;> rfl
  | findDueRetries now after take => cases r <;> rfl
  | updateDelivery id m changes =>
      have hne : id ≠ n := by
        rintro rfl
        exact hupdate m changes rfl
      exact if_neg hne
  | send m chat ids =>
      cases r with
      | error e => rfl
      | ok a =>
          have hmem : n ∉ ids := by simpa [carries] using hsend
          exact if_neg hmem
  | _ => rfl

theorem phaseIn_of_not_mem {rows : List LoadedNotice} (h : n ∉ rows.map (fun row => row.id)) :
    phaseIn n q rows = q := by
  have hnone : rows.find? (fun row => row.id = n) = none := by
    rw [List.find?_eq_none]
    intro row hrow hid
    exact h (List.mem_map.mpr ⟨row, hrow, by simpa using hid⟩)
  rw [phaseIn, hnone]

theorem phaseIn_of_mem {rows : List LoadedNotice} (h : n ∈ rows.map (fun row => row.id)) :
    ∃ row ∈ rows, row.id = n ∧ phaseIn n q rows = phaseOf row.toCargoNotification := by
  obtain ⟨x, hx, hid⟩ := List.mem_map.mp h
  obtain ⟨row, hrow⟩ := Option.isSome_iff_exists.mp
    (List.find?_isSome (p := fun row : LoadedNotice => decide (row.id = n))
      |>.mpr ⟨x, hx, by simpa using hid⟩)
  refine ⟨row, List.mem_of_find?_eq_some hrow, by simpa using List.find?_some hrow, ?_⟩
  rw [phaseIn, hrow]

end Events

/-! ### The invariant of a run -/

/-- The phase of a call, read off the trace. -/
def phaseAt (n : ℕ) (tr : List (Event Resp)) (pid : ℕ) : Phase :=
  stateOf (noticeMonitor n) .unread tr pid

/-- The call is running and has read the notice. -/
def Holder (n : ℕ) (tr : List (Event Resp)) (b : Conf Resp Fault Store) (pid : ℕ) : Prop :=
  (∃ p, b.pool[pid]? = some p ∧ p.finished = false) ∧ phaseAt n tr pid ≠ .unread

/-- What a run keeps, for one notice: one call holds it at a time, what it holds is what is stored,
and what was sent is stored as sent, or its call still owes that. -/
structure Once (n : ℕ) (tr : List (Event Resp)) (b : Conf Resp Fault Store) : Prop where
  atMost : sends tr n ≤ 1
  recorded : 0 < sends tr n →
    (∃ pid m, Holder n tr b pid ∧ phaseAt n tr pid = .owed m) ∨ ∃ m, SentIn b.store n m
  hasRead : ∀ pid, phaseAt n tr pid ≠ .unread → HasRead tr pid n
  alone : ∀ pid other, Holder n tr b pid → Holder n tr b other → pid = other
  present : ∀ pid, Holder n tr b pid → Present b.store n
  unsent : ∀ pid, Holder n tr b pid → phaseAt n tr pid = .unsent →
    sends tr n = 0 ∧ ∀ m, ¬SentIn b.store n m
  known : ∀ pid m, Holder n tr b pid → phaseAt n tr pid = .known m → SentIn b.store n m

section Step

variable {n : ℕ} {tr : List (Event Resp)} {b : Conf Resp Fault Store}

/-- A step that touches neither the notice nor a call that holds it. -/
theorem Once.quiet (h : Once n tr b) {e : Event Resp} {b' : Conf Resp Fault Store}
    (hsends : carries n e = false)
    (hphase : ∀ pid, phaseAt n (e :: tr) pid = phaseAt n tr pid)
    (hholder : ∀ pid, Holder n (e :: tr) b' pid → Holder n tr b pid)
    (howed : ∀ pid m, Holder n tr b pid → phaseAt n tr pid = .owed m → Holder n (e :: tr) b' pid)
    (hpresent : Present b.store n → Present b'.store n)
    (hsent : Present b.store n → ∀ m, SentIn b'.store n m ↔ SentIn b.store n m) :
    Once n (e :: tr) b' := by
  have hcount : sends (e :: tr) n = sends tr n := by
    rw [sends, List.countP_cons_of_neg (by simp [hsends])]
    rfl
  refine ⟨hcount ▸ h.atMost, ?_, ?_, ?_, ?_, ?_, ?_⟩
  · intro hpos
    rw [hcount] at hpos
    rcases h.recorded hpos with ⟨pid, m, hpid, hm⟩ | ⟨m, hm⟩
    · exact .inl ⟨pid, m, howed pid m hpid hm, (hphase pid).trans hm⟩
    · exact .inr ⟨m, (hsent hm.present m).mpr hm⟩
  · intro pid hpid
    rw [hphase] at hpid
    obtain ⟨x, hx, hread⟩ := h.hasRead pid hpid
    exact ⟨x, by simp [hx], hread⟩
  · intro pid other hpid hother
    exact h.alone pid other (hholder pid hpid) (hholder other hother)
  · intro pid hpid
    exact hpresent (h.present pid (hholder pid hpid))
  · intro pid hpid hq
    rw [hphase] at hq
    obtain ⟨hnone, hunsent⟩ := h.unsent pid (hholder pid hpid) hq
    refine ⟨hcount.trans hnone, ?_⟩
    intro m hm
    exact hunsent m ((hsent (h.present pid (hholder pid hpid)) m).mp hm)
  · intro pid m hpid hq
    rw [hphase] at hq
    exact (hsent (h.present pid (hholder pid hpid)) m).mpr (h.known pid m (hholder pid hpid) hq)

/-- The pool after call `pid` has taken a step. -/
theorem getElem?_stepped {pid other : ℕ} {p p' : Delivery Unit} (hpool : b.pool[pid]? = some p) :
    (b.pool.set pid p')[other]? = if other = pid then some p' else b.pool[other]? := by
  have hlt : pid < b.pool.length := (List.getElem?_eq_some_iff.mp hpool).1
  rw [List.getElem?_set]
  by_cases h : other = pid
  · subst h
    simp [hlt]
  · rw [if_neg h, if_neg (fun hc => h hc.symm)]

variable {pid : ℕ} {c : Cmd} {k : Resp c → Delivery Unit} {r : Resp c} {s' : Store}

theorem phaseAt_self : phaseAt n (.act pid c r :: tr) pid =
    (noticeMonitor n).next (phaseAt n tr pid) c r := stateOf_act_self tr pid c r

theorem phaseAt_other {other : ℕ} (h : other ≠ pid) :
    phaseAt n (.act pid c r :: tr) other = phaseAt n tr other :=
  stateOf_act_of_ne fun hc => h hc.symm

/-- The other calls hold the notice after the step as before it. -/
theorem holder_other {other : ℕ} (hpool : b.pool[pid]? = some (.call c k)) (h : other ≠ pid) :
    Holder n (.act pid c r :: tr) ⟨s', b.pool.set pid (k r)⟩ other ↔ Holder n tr b other := by
  rw [Holder, Holder, phaseAt_other h, getElem?_stepped hpool, if_neg h]

theorem holder_caller (hpool : b.pool[pid]? = some (.call c k)) (hq : phaseAt n tr pid ≠ .unread) :
    Holder n tr b pid := ⟨⟨_, hpool, rfl⟩, hq⟩

/-- Only the caller can hold the notice after its step, when it held it or nobody did. -/
theorem eq_caller (h : Once n tr b) (hpool : b.pool[pid]? = some (.call c k))
    (hfree : phaseAt n tr pid ≠ .unread ∨ ∀ other, ¬Holder n tr b other) {other : ℕ}
    (hother : Holder n (.act pid c r :: tr) ⟨s', b.pool.set pid (k r)⟩ other) : other = pid := by
  by_contra hne
  rw [holder_other hpool hne] at hother
  rcases hfree with hq | hnone
  · exact hne (h.alone other pid hother (holder_caller hpool hq))
  · exact hnone other hother

/-- A step after which the caller holds the notice in `q'`, and nobody else does. -/
theorem Once.holding (h : Once n tr b) (hpool : b.pool[pid]? = some (.call c k))
    (hfree : phaseAt n tr pid ≠ .unread ∨ ∀ other, ¬Holder n tr b other) {q' : Phase}
    (hq' : (noticeMonitor n).next (phaseAt n tr pid) c r = q')
    (hread : HasRead (.act pid c r :: tr) pid n) (hpresent : Present s' n)
    (hatMost : sends (.act pid c r :: tr) n ≤ 1)
    (hrecorded : 0 < sends (.act pid c r :: tr) n →
      ((k r).finished = false ∧ ∃ m, q' = .owed m) ∨ ∃ m, SentIn s' n m)
    (hunsent : q' = .unsent → sends (.act pid c r :: tr) n = 0 ∧ ∀ m, ¬SentIn s' n m)
    (hknown : ∀ m, q' = .known m → SentIn s' n m) :
    Once n (.act pid c r :: tr) ⟨s', b.pool.set pid (k r)⟩ := by
  have hself : phaseAt n (.act pid c r :: tr) pid = q' := phaseAt_self.trans hq'
  refine ⟨hatMost, ?_, ?_, ?_, ?_, ?_, ?_⟩
  · intro hpos
    rcases hrecorded hpos with ⟨hrun, m, hm⟩ | hm
    · refine .inl ⟨pid, m, ⟨⟨k r, ?_, hrun⟩, ?_⟩, hself.trans hm⟩
      · rw [getElem?_stepped hpool, if_pos rfl]
      · rw [hself, hm]
        simp
    · exact .inr hm
  · intro other hother
    by_cases hne : other = pid
    · rw [hne]
      exact hread
    · rw [phaseAt_other hne] at hother
      obtain ⟨x, hx, hr⟩ := h.hasRead other hother
      exact ⟨x, by simp [hx], hr⟩
  · intro x y hx hy
    rw [eq_caller h hpool hfree hx, eq_caller h hpool hfree hy]
  · intro _ _
    exact hpresent
  · intro x hx hq
    rw [eq_caller h hpool hfree hx, hself] at hq
    exact hunsent hq
  · intro x m hx hq
    rw [eq_caller h hpool hfree hx, hself] at hq
    exact hknown m hq

/-- A call that owes a write has not ended. -/
theorem unfinished_of_owed {p : Delivery Unit} {m : Messenger}
    (h : Accepts (noticeMonitor n) p (.owed m) Ends) : p.finished = false := by
  cases p with
  | ret a => exact absurd rfl (h m)
  | throw e => exact absurd rfl (h m)
  | call c k => rfl

theorem sends_cons {e : Event Resp} :
    sends (e :: tr) n = sends tr n + if carries n e then 1 else 0 := by
  rw [sends, List.countP_cons]
  rfl

theorem HasRead.cons {e : Event Resp} (h : HasRead tr pid n) : HasRead (e :: tr) pid n := by
  obtain ⟨x, hx, hr⟩ := h
  exact ⟨x, by simp [hx], hr⟩

/-- A send of the notice: its call held it unsent, and now owes the write. -/
theorem Once.sent (h : Once n tr b) (hpool : b.pool[pid]? = some (.call c k))
    (hcarries : carries n (.act pid c r) = true) {m : Messenger}
    (hnext : (noticeMonitor n).next (phaseAt n tr pid) c r = .owed m)
    (hunsent : phaseAt n tr pid = .unsent) (hrun : (k r).finished = false) :
    Once n (.act pid c r :: tr) ⟨b.store, b.pool.set pid (k r)⟩ := by
  have hholder : Holder n tr b pid := holder_caller hpool (by simp [hunsent])
  have hone : sends (.act pid c r :: tr) n = 1 := by
    rw [sends_cons, hcarries, (h.unsent pid hholder hunsent).1]
    rfl
  refine h.holding hpool (.inl (by simp [hunsent])) hnext (h.hasRead pid hholder.2).cons
    (h.present pid hholder) hone.le (fun _ => .inl ⟨hrun, m, rfl⟩) ?_ ?_
  · intro hq
    cases hq
  · intro m' hq
    cases hq

/-- A write to the notice, by the call that holds it. -/
theorem Once.updated {w : World} {m : Messenger} {changes : CargoNotificationDelivery}
    {k : Resp (.updateDelivery n m changes) → Delivery Unit} {r : Resp (.updateDelivery n m changes)}
    (h : Once n tr b) (hpool : b.pool[pid]? = some (.call (.updateDelivery n m changes) k))
    (hmay : mayWrite (phaseAt n tr pid) m changes) :
    Once n (.act pid (.updateDelivery n m changes) r :: tr)
      ⟨(exec w (.updateDelivery n m changes) b.store).2, b.pool.set pid (k r)⟩ := by
  have hread : phaseAt n tr pid ≠ .unread := by
    intro hq
    rw [hq] at hmay
    exact hmay
  have hholder : Holder n tr b pid := holder_caller hpool hread
  have hpresent := h.present pid hholder
  have hcount : sends (.act pid (.updateDelivery n m changes) r :: tr) n = sends tr n := by
    rw [sends_cons]
    rfl
  have hnext : (noticeMonitor n).next (phaseAt n tr pid) (.updateDelivery n m changes) r =
      written (phaseAt n tr pid) := if_pos rfl
  have hatMost := hcount ▸ h.atMost
  cases hq : phaseAt n tr pid with
  | unread => exact absurd hq hread
  | unsent =>
      have hsame : (noticeMonitor n).next (phaseAt n tr pid) (.updateDelivery n m changes) r =
          .unsent := by rw [hnext, hq]; rfl
      rw [hq] at hmay
      obtain ⟨hnone, hno⟩ := h.unsent pid hholder hq
      have hno' := unsent_update (w := w) (m := m) hpresent hmay hno
      refine h.holding hpool (.inl hread) hsame (h.hasRead pid hread).cons
        (present_exec hpresent) hatMost ?_ (fun _ => ⟨hcount.trans hnone, hno'⟩) ?_
      · intro hpos
        rw [hcount, hnone] at hpos
        cases hpos
      · intro m' hm'
        cases hm'
  | owed m' =>
      have hdone : (noticeMonitor n).next (phaseAt n tr pid) (.updateDelivery n m changes) r =
          .known m' := by rw [hnext, hq]; rfl
      rw [hq] at hmay
      obtain ⟨rfl, hstatus⟩ := hmay
      have hsent := sentIn_update (w := w) (m := m) hpresent hstatus
      refine h.holding hpool (.inl hread) hdone (h.hasRead pid hread).cons
        (present_exec hpresent) hatMost (fun _ => .inr ⟨m, hsent⟩) ?_ ?_
      · intro hc
        cases hc
      · intro m' hm'
        cases hm'
        exact hsent
  | known m' =>
      have hsame : (noticeMonitor n).next (phaseAt n tr pid) (.updateDelivery n m changes) r =
          .known m' := by rw [hnext, hq]; rfl
      rw [hq] at hmay
      have hsent : SentIn (exec w (.updateDelivery n m changes) b.store).2 n m' := by
        refine (sentIn_exec ?_ hpresent).mpr (h.known pid m' hholder hq)
        intro changes' hc
        cases hc
        exact hmay.1 rfl
      refine h.holding hpool (.inl hread) hsame (h.hasRead pid hread).cons
        (present_exec hpresent) hatMost (fun _ => .inr ⟨m', hsent⟩) ?_ ?_
      · intro hc
        cases hc
      · intro m'' hm''
        cases hm''
        exact hsent

/-- A read of the notice, when no call holds it. -/
theorem Once.read (h : Once n tr b) (hpool : b.pool[pid]? = some (.call c k))
    (hnobody : ∀ other, ¬Holder n tr b other) (hcarries : carries n (.act pid c r) = false)
    (hupdate : ∀ m changes, c ≠ .updateDelivery n m changes)
    (hmem : n ∈ readIds (.act pid c r))
    (hstored : ∀ x ∈ readRows (.act pid c r), b.store.notices.get x.id = some x.toCargoNotification)
    (hnotices : s'.notices = b.store.notices) :
    Once n (.act pid c r :: tr) ⟨s', b.pool.set pid (k r)⟩ := by
  obtain ⟨row, hrow, hid, hphase⟩ := phaseIn_of_mem (q := phaseAt n tr pid) hmem
  have hget : s'.notices.get n = some row.toCargoNotification := by
    rw [hnotices, ← hid]
    exact hstored row hrow
  have hnext := (next_eq_phaseIn (q := phaseAt n tr pid) hcarries hupdate).trans hphase
  have hcount : sends (.act pid c r :: tr) n = sends tr n := by
    rw [sends_cons, hcarries]
    rfl
  have hsentIn : ∀ m, SentIn s' n m ↔ row.status m = .sent := by
    intro m
    simp only [SentIn, hget, Option.some.injEq, exists_eq_left']
  -- nothing is owed, so what was sent is stored as sent
  have hrecorded : 0 < sends tr n → ∃ m, SentIn s' n m := by
    intro hpos
    rcases h.recorded hpos with ⟨other, m, hother, _⟩ | ⟨m, x, hx, hm⟩
    · exact absurd hother (hnobody other)
    · exact ⟨m, x, hnotices ▸ hx, hm⟩
  refine h.holding hpool (.inr hnobody) hnext ⟨_, by simp, rfl, hmem⟩ ?_ (hcount ▸ h.atMost) ?_ ?_ ?_
  · rw [Present, hget]
    rfl
  · intro hpos
    exact .inr (hrecorded (hcount ▸ hpos))
  · intro hunsent
    have hno : ∀ m, ¬SentIn s' n m := by
      intro m hm
      have hsome : row.sentSomewhere = true :=
        List.any_eq_true.mpr ⟨m, mem_messengerOrder m, by simpa using (hsentIn m).mp hm⟩
      obtain ⟨m', hm', _⟩ := phaseOf_known hsome
      rw [hm'] at hunsent
      cases hunsent
    refine ⟨?_, hno⟩
    rw [hcount]
    by_contra hpos
    obtain ⟨m, hm⟩ := hrecorded (Nat.pos_of_ne_zero hpos)
    exact hno m hm
  · intro m hm
    cases hs : row.sentSomewhere with
    | false =>
        rw [phaseOf_unsent hs] at hm
        cases hm
    | true =>
        obtain ⟨m', hm', hsent⟩ := phaseOf_known hs
        rw [hm'] at hm
        cases hm
        exact (hsentIn m).mpr hsent

/-- A read changes nothing. -/
theorem notices_of_reads {w : World} {s : Store} (h : readRows (.act pid c r) ≠ []) :
    (exec w c s).2.notices = s.notices := by
  cases c with
  | findWithListing use id => rfl
  | findManyWithListing ids => rfl
  | findDueRetries now after take => rfl
  | _ => exact absurd rfl h

theorem Once.act {w : World} (h : Once n tr b) (hpool : b.pool[pid]? = some (.call c k))
    (haccepts : Accepts (noticeMonitor n) (.call c k) (phaseAt n tr pid) Ends)
    (hok : ReadsAlone tr b (.act pid c (exec w c b.store).1)) :
    Once n (.act pid c (exec w c b.store).1 :: tr)
      ⟨(exec w c b.store).2, b.pool.set pid (k (exec w c b.store).1)⟩ := by
  obtain ⟨hallowed, hrest⟩ := haccepts
  have hgo := hrest _ (responds_exec w c b.store)
  cases hcarries : carries n (.act pid c (exec w c b.store).1) with
  | true =>
      obtain ⟨m, hnext, hunsent, hstore⟩ := carries_send (w := w) (s := b.store) hcarries
      rw [hnext] at hgo
      rw [hstore]
      exact h.sent hpool hcarries (hnext _) (hunsent _ hallowed) (unfinished_of_owed hgo)
  | false =>
      by_cases hupdate : ∃ m changes, c = .updateDelivery n m changes
      · obtain ⟨m, changes, rfl⟩ := hupdate
        exact h.updated hpool (hallowed rfl)
      · have hupdate' : ∀ m changes, c ≠ .updateDelivery n m changes :=
          fun m changes hc => hupdate ⟨m, changes, hc⟩
        by_cases hmem : n ∈ readIds (.act pid c (exec w c b.store).1)
        · have hreads : readRows (.act pid c (exec w c b.store).1) ≠ [] := by
            intro hnil
            rw [readIds, hnil] at hmem
            simp at hmem
          have hunread := unread_of_reads hreads hallowed
          refine h.read hpool ?_ hcarries hupdate' hmem (fun x hx => readRows_stored hx)
            (notices_of_reads hreads)
          -- whoever holds the notice has read it and is running
          rintro other ⟨⟨p, hp, hrun⟩, hother⟩
          have hne : other ≠ pid := by
            rintro rfl
            exact hother hunread
          have hlt : other < b.pool.length := (List.getElem?_eq_some_iff.mp hp).1
          have hend := hok n hmem other (List.mem_range.mpr hlt)
            (by simp [actor, Ne.symm hne]) (h.hasRead other hother) p hp
          rw [hrun] at hend
          cases hend
        · have hnext : (noticeMonitor n).next (phaseAt n tr pid) c (exec w c b.store).1 =
              phaseAt n tr pid :=
            (next_eq_phaseIn hcarries hupdate').trans (phaseIn_of_not_mem hmem)
          have hphase : ∀ other, phaseAt n (.act pid c (exec w c b.store).1 :: tr) other =
              phaseAt n tr other := by
            intro other
            by_cases hne : other = pid
            · rw [hne, phaseAt_self, hnext]
            · exact phaseAt_other hne
          refine h.quiet hcarries hphase ?_ ?_ present_exec
            (fun hp m => sentIn_exec (fun changes => hupdate' m changes) hp)
          · intro other hother
            by_cases hne : other = pid
            · rw [hne] at hother ⊢
              refine holder_caller hpool ?_
              rw [← hphase pid]
              exact hother.2
            · exact (holder_other hpool hne).mp hother
          · intro other m hother howed
            by_cases hne : other = pid
            · subst hne
              rw [hnext, howed] at hgo
              refine ⟨⟨_, ?_, unfinished_of_owed hgo⟩, ?_⟩
              · rw [getElem?_stepped hpool, if_pos rfl]
              · rw [hphase, howed]
                simp
            · exact (holder_other hpool hne).mpr hother

end Step

/-! ### Whole runs -/

theorem not_holder_start {n : ℕ} {s₀ : Store} (pid : ℕ) :
    ¬Holder n [] (.start s₀) pid := fun h => h.2 rfl

theorem once_start (n : ℕ) (s₀ : Store) : Once n [] (.start s₀) where
  atMost := Nat.zero_le 1
  recorded hpos := absurd hpos (Nat.lt_irrefl 0)
  hasRead _ h := absurd rfl h
  alone pid _ h := absurd h (not_holder_start pid)
  present pid h := absurd h (not_holder_start pid)
  unsent pid h := absurd h (not_holder_start pid)
  known pid _ h := absurd h (not_holder_start pid)

theorem Once.passed {n : ℕ} {tr : List (Event Resp)} {b : Conf Resp Fault Store} (h : Once n tr b)
    (o : Passing) : Once n (.outside :: tr) ⟨passing o b.store, b.pool⟩ := by
  have hnotices : (passing o b.store).notices = b.store.notices := by
    cases o <;> rfl
  refine h.quiet rfl (fun _ => rfl) (fun _ h => h) (fun _ _ h _ => h) ?_ ?_
  · intro hp
    show ((passing o b.store).notices.get n).isSome = true
    rw [hnotices]
    exact hp
  · intro _ m
    show (∃ row, (passing o b.store).notices.get n = some row ∧ _) ↔ _
    rw [hnotices]
    rfl

theorem Once.started {n : ℕ} {tr : List (Event Resp)} {b : Conf Resp Fault Store} (h : Once n tr b)
    (p : Delivery Unit) (hidle : phaseAt n tr b.pool.length = .unread) :
    Once n (.start b.pool.length :: tr) ⟨b.store, b.pool ++ [p]⟩ := by
  refine h.quiet rfl (fun _ => rfl) ?_ ?_ (fun hp => hp) (fun _ _ => Iff.rfl)
  · rintro pid ⟨⟨x, hx, hrun⟩, hq⟩
    have hlt : pid < b.pool.length := by
      by_contra hge
      have hle : pid < (b.pool ++ [p]).length := (List.getElem?_eq_some_iff.mp hx).1
      rw [List.length_append, List.length_singleton] at hle
      have hlast : pid = b.pool.length := by omega
      exact hq (hlast ▸ hidle)
    rw [List.getElem?_append_left hlt] at hx
    exact ⟨⟨x, hx, hrun⟩, hq⟩
  · rintro pid m ⟨⟨x, hx, hrun⟩, hq⟩ _
    have hlt : pid < b.pool.length := (List.getElem?_eq_some_iff.mp hx).1
    refine ⟨⟨x, ?_, hrun⟩, hq⟩
    show (b.pool ++ [p])[pid]? = some x
    rw [List.getElem?_append_left hlt]
    exact hx

/-- **A notice is sent once**, over all messengers, in every run in which a call reads a notice to
deliver it only when every other call that has read it has ended. -/
theorem notice_sent_once (window : ℕ) {s₀ : Store} {tr : List (Event Resp)}
    {b : Conf Resp Fault Store} (h : (noticeMachine window).Run ReadsAlone (.start s₀) tr b)
    (n : ℕ) : sends tr n ≤ 1 := by
  have honce : Once n tr b := by
    refine Machine.Run.invariant (fun tr b => Once n tr b) (once_start n s₀) ?_ h
    intro tr b l e c hrun ih hs hok
    obtain ⟨hidle, hin⟩ := Run.accepted (F := Phase.Clear)
      (fun call s p s' hb => by
        obtain ⟨rfl, _⟩ := Prod.mk.inj (Option.some.inj hb)
        exact accepts_noticeProgram window n call)
      (fun _ b _ w c r _ _ hx _ => by
        have hr : (exec w c b.store).1 = r := congrArg Prod.fst (Option.some.inj hx)
        exact hr ▸ responds_exec w c b.store) hrun
    cases l with
    | outside o =>
        obtain ⟨s, ho, rfl, rfl⟩ := Machine.step_outside hs
        obtain rfl := Option.some.inj ho
        exact ih.passed o
    | start call =>
        obtain ⟨p, s, hb, rfl, rfl⟩ := Machine.step_start hs
        obtain ⟨_, rfl⟩ := Prod.mk.inj (Option.some.inj hb)
        exact ih.started p (hidle _ le_rfl)
    | act pid w =>
        obtain ⟨cmd, k, r, s, hpool, hx, rfl, rfl⟩ := Machine.step_act hs
        obtain ⟨rfl, rfl⟩ := Prod.mk.inj (Option.some.inj hx)
        exact ih.act hpool (hin pid _ hpool) hok
  exact honce.atMost

/-- A load to announce. -/
def openLoad : CargoListing where
  id := 1
  sourceMessageId := "1"
  publisherUserId := 10
  companyName := none
  contactPhones := []
  tripType := .domestic
  status := .opened
  takenAt := none
  announcedAt := none

def oneOpenLoad : Store where
  notices := .empty
  listings := Table.empty.put openLoad
  redis := .empty
  queue := []
  running := false
  clock := 100000000

/-- The driver has linked Bale alone, and everything goes through. -/
def onBale : World where
  link _ m := if m = .bale then some 70 else none
  canReceive := true
  outOfRequests := false
  sent := .ok 500
  edited := .ok ()
  queueUp := true
  published := .ok ()
  turn := 0

/-- The messenger does not answer. -/
def noAnswer : World := { onBale with sent := .error ⟨none, none⟩ }

/-- A call takes its next steps in the same world. -/
def goes (window pid steps : ℕ) (w : World) : List (noticeMachine window).Label :=
  List.replicate steps (.act pid w)

/-- The load is announced to driver 7 and its notice sent. -/
def announcedSchedule : List (noticeMachine 120).Label :=
  [[.start (.announce 1 [7])], goes 120 0 5 onBale, [.start (.consume .bale)],
    goes 120 1 11 onBale].flatten

theorem notice_sent_once_announced :
    ∃ tr b, (noticeMachine 120).Run ReadsAlone (.start oneOpenLoad) tr b ∧ b.Quiet ∧
      sends tr 1 = 1 ∧ sends tr 1 ≤ 1 := by
  have hplay : ((noticeMachine 120).play ReadsAlone [] (.start oneOpenLoad)
      announcedSchedule).any (fun x => x.2.Quiet ∧ sends x.1 1 = 1) = true := by
    decide
  simp only [Option.any_eq_true, decide_eq_true_eq] at hplay
  obtain ⟨⟨tr, b⟩, hp, hquiet, hone⟩ := hplay
  have hrun := Machine.play_run .nil hp
  exact ⟨tr, b, hrun, hquiet, hone, notice_sent_once 120 hrun 1⟩

/-- The first send fails for now; 110 seconds later the sweep reads the notice, and the queue tries
it again, holds it for the summary and, ten seconds later, sends it alone. -/
def staleSweepSchedule : List (noticeMachine 120).Label :=
  [[.start (.announce 1 [7])], goes 120 0 5 onBale,
    [.start (.consume .bale)], goes 120 1 8 onBale, goes 120 1 1 noAnswer, goes 120 1 4 onBale,
    [.outside (.wait 110000), .start .tick], goes 120 2 8 onBale,
    [.start (.consume .bale)], goes 120 3 11 onBale, [.outside (.wait 10000)],
    [.start (.consume .bale)], goes 120 4 8 onBale,
    [.start (.consume .bale)], goes 120 5 10 onBale, goes 120 2 4 onBale].flatten

/-- The sweep then sends the notice again, from the row it had read. -/
theorem stale_sweep_sends_twice :
    ¬∀ tr b, (noticeMachine 120).Run (fun _ _ _ => True) (.start oneOpenLoad) tr b →
      ∀ n, sends tr n ≤ 1 := by
  intro hclaim
  have hplay : ((noticeMachine 120).play (fun _ _ _ => True) [] (.start oneOpenLoad)
      staleSweepSchedule).any (fun x => sends x.1 1 = 2) = true := by
    decide
  simp only [Option.any_eq_true, decide_eq_true_eq] at hplay
  obtain ⟨⟨tr, b⟩, hp, htwo⟩ := hplay
  have hone := hclaim tr b (Machine.play_run .nil hp) 1
  rw [show sends tr 1 = 2 from htwo] at hone
  omega

end TransportBackend.NoticeInterleaving
