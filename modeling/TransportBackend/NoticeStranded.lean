import TransportBackend.NoticeFault
import TransportBackend.NoticeHeld

/-!
# A failing step and the loads held

The consumers of the delivery queue, one job after another, while one step of the database, Redis or
RabbitMQ fails: it throws and changes nothing.  A job that throws is queued again; one whose next step
could not be queued is put back.

* `Stranding` — the failing step leaves a load behind (`NoticeFault.strands`);
* `held_has_way` — **otherwise none is left behind**: whenever no job is in progress, a notice that
  was held or taken out of the hash and is still pending has its own job queued, or is in the hash
  while a summary is queued, or is due to be tried again.

Both kinds of stranding are real: `read_fails_after_taking`, a summary that has taken its ids and
cannot read the rows; and `publish_fails_with_flag`, a held load whose summary could not be queued:
put back, it finds the flag set and counts on a summary that nobody queued.
-/

namespace TransportBackend.NoticeStranded

open TransportBackend.AtomicProgram
open TransportBackend.InterleavedRun
open TransportBackend.MonitoredProgram
open TransportBackend.KeyedTable
open TransportBackend.NoticeStore
open TransportBackend.NoticeService
open TransportBackend.NoticeMonitor (Passing passing)
open TransportBackend.NoticeDigest (isDigest)
open TransportBackend.NoticeHeld hiding goes
open TransportBackend.NoticeInterleaving (oneOpenLoad openLoad onBale mem_byCreation)
open TransportBackend.NoticeFault

/-! ### The machine -/

/-- What the outside answers at one step, and whether the step fails. -/
structure Turn where
  world : World
  fault : Option Fault

/-- A command that may fail: it then changes nothing. -/
def attempt (t : Turn) (c : Cmd) (s : Store) : Resp c × Store :=
  match t.fault with
  | some e => if canFail c then (.error e, s) else exec t.world c s
  | none => exec t.world c s

/-- The consumers of the queue. -/
def consumerMachine (window : ℕ) : Machine Resp Fault Store where
  Choice := Turn
  Outside := Passing
  Call := Messenger
  exec t c s := some (attempt t c s)
  outside o s := some (passing o s)
  begin m s := some (consume window m, s)

/-! ### Reading a run -/

/-- The step failed. -/
def failed : Event Resp → Bool
  | .act _ c r => failing c r
  | _ => false

/-- What hangs on the next step. -/
def cutAt : List (Event Resp) → Cut
  | [] => .clear
  | .act _ c r :: tr => (cutAt tr).next c r
  | _ :: tr => cutAt tr

/-- The step failed and leaves a load behind. -/
def stranding (tr : List (Event Resp)) : Event Resp → Bool
  | .act _ c r => failing c r && strands (cutAt tr) c
  | _ => false

/-- One job after another, one failure at most, and the hash not expired. -/
def OneFails (m : Messenger) (userId : ℕ) (tr : List (Event Resp)) (b : Conf Resp Fault Store)
    (e : Event Resp) : Prop :=
  Serial tr b e ∧ (failed e = true → ∀ x ∈ tr, failed x = false) ∧ Unexpired m userId b.store

instance (m : Messenger) (userId : ℕ) (tr : List (Event Resp)) (b : Conf Resp Fault Store)
    (e : Event Resp) : Decidable (OneFails m userId tr b e) :=
  inferInstanceAs (Decidable (Serial tr b e ∧ (failed e = true → ∀ x ∈ tr, failed x = false) ∧
    Unexpired m userId b.store))

/-- The same, and the step that fails leaves no load behind. -/
def Spares (m : Messenger) (userId : ℕ) (tr : List (Event Resp)) (b : Conf Resp Fault Store)
    (e : Event Resp) : Prop :=
  OneFails m userId tr b e ∧ stranding tr e = false

instance (m : Messenger) (userId : ℕ) (tr : List (Event Resp)) (b : Conf Resp Fault Store)
    (e : Event Resp) : Decidable (Spares m userId tr b e) :=
  inferInstanceAs (Decidable (OneFails m userId tr b e ∧ stranding tr e = false))

section Reading

variable (n : ℕ) (m : Messenger) (userId : ℕ)

/-- A summary took the id out of the hash at this event. -/
def takesOut : Event Resp → Bool
  | .act _ (.hashDelete key ids) (.ok _) => key = .cargoDigestPending m userId ∧ n ∈ ids
  | _ => false

/-- The notice was held for a summary, or taken out of the hash by one. -/
def WasHeld (tr : List (Event Resp)) : Prop :=
  ∃ e ∈ tr, puts m userId n e = true ∨ takesOut n m userId e = true

instance (tr : List (Event Resp)) : Decidable (WasHeld n m userId tr) :=
  inferInstanceAs (Decidable
    (∃ e ∈ tr, puts m userId n e = true ∨ takesOut n m userId e = true))

/-- A job of the notice is queued. -/
def SendQueued (s : Store) : Prop := ∃ x ∈ s.queue, isSend n m x.job = true

instance (s : Store) : Decidable (SendQueued n m s) :=
  inferInstanceAs (Decidable (∃ x ∈ s.queue, isSend n m x.job = true))

/-- A way to be sent: its own job, the hash and a summary, or a time to try again. -/
def HasWay (s : Store) (row : CargoNotification) : Prop :=
  SendQueued n m s ∨
    (n ∈ s.redis.hash s.clock (.cargoDigestPending m userId) ∧ Queued m userId s) ∨
    (row.columns m).nextRetryAt ≠ none

instance (s : Store) (row : CargoNotification) : Decidable (HasWay n m userId s row) :=
  inferInstanceAs (Decidable (SendQueued n m s ∨
    (n ∈ s.redis.hash s.clock (.cargoDigestPending m userId) ∧ Queued m userId s) ∨
    (row.columns m).nextRetryAt ≠ none))

end Reading

/-! ### The monitor beside the run -/

/-- What is known fits the store. -/
structure Shadows (n : ℕ) (m : Messenger) (userId : ℕ) (q : Care) (s : Store) : Prop where
  row : ∃ row, s.notices.get n = some row ∧ row.userId = userId ∧
    (row.status m = .pending ↔ q.pending = true)
  hash : q.inHash = true → n ∈ s.redis.fields (.cargoDigestPending m userId)
  flag : Flagged m userId s → q.flagged = true
  summary : q.summary = true → Queued m userId s
  send : q.send = true → SendQueued n m s
  tries : ∀ x ∈ s.queue, x.job.tries ≤ q.trouble.tries

/-- What is known fits the trace. -/
structure Traces (n : ℕ) (m : Messenger) (userId : ℕ) (tr : List (Event Resp)) (q : Care) : Prop where
  held : WasHeld n m userId tr → q.held = true
  trouble : (∀ e ∈ tr, failed e = false) → q.trouble = .none
  cut : q.cut = cutAt tr

section Step

variable {n : ℕ} {m : Messenger} {userId : ℕ} {tr : List (Event Resp)} {q : Care} {s : Store}
  {c : Cmd}

/-- How a command ends: thrown with no effect, or answered. -/
theorem attempt_cases (t : Turn) (c : Cmd) (s : Store) :
    (∃ e, attempt t c s = (.error e, s) ∧ (canFail c = true ∨ Fallible c)) ∨
      ∃ a, attempt t c s = (.ok a, (exec t.world c s).2) ∧ (exec t.world c s).1 = .ok a := by
  have hexec : (∃ e, exec t.world c s = (.error e, s) ∧ (canFail c = true ∨ Fallible c)) ∨
      ∃ a, (exec t.world c s).1 = .ok a := by
    cases c with
    | send x chat ids =>
        cases hw : t.world.sent with
        | ok a => exact .inr ⟨a, hw⟩
        | error e => exact .inl ⟨e, by simp only [exec, hw], .inr trivial⟩
    | editMessage x key =>
        cases hw : t.world.edited with
        | ok a => exact .inr ⟨a, hw⟩
        | error e => exact .inl ⟨e, by simp only [exec, hw], .inr trivial⟩
    | react x key =>
        cases hw : t.world.edited with
        | ok a => exact .inr ⟨a, hw⟩
        | error e => exact .inl ⟨e, by simp only [exec, hw], .inr trivial⟩
    | publish job delay =>
        cases hw : t.world.published with
        | ok a => exact .inr ⟨(), by simp only [exec, hw]⟩
        | error e => exact .inl ⟨e, by simp only [exec, hw], .inl rfl⟩
    | setIfAbsent key ttl =>
        right
        simp only [exec]
        split <;> exact ⟨_, rfl⟩
    | receive x =>
        right
        simp only [exec]
        split <;> exact ⟨_, rfl⟩
    | _ => exact .inr ⟨_, rfl⟩
  unfold attempt
  split
  · rename_i e _
    split
    · rename_i hfail
      exact .inl ⟨e, rfl, .inl hfail⟩
    · exact hexec.imp_right fun h => h.imp fun a ha => ⟨Prod.ext ha rfl, ha⟩
  · exact hexec.imp_right fun h => h.imp fun a ha => ⟨Prod.ext ha rfl, ha⟩

/-- What is known of the trace alone does not matter to the store. -/
theorem Shadows.relabel (h : Shadows n m userId q s) {trouble : Trouble} {cut : Cut}
    (ht : q.trouble.tries ≤ trouble.tries) :
    Shadows n m userId { q with trouble := trouble, cut := cut } s :=
  ⟨h.row, h.hash, h.flag, h.summary, h.send, fun x hx => (h.tries x hx).trans ht⟩

/-- The columns of other notices and messengers are nothing to this one. -/
theorem Shadows.updated (h : Shadows n m userId q s) {id : ℕ} {x : Messenger}
    {changes : CargoNotificationDelivery} (hallowed : q.Allows n m userId (.updateDelivery id x changes)) :
    Shadows n m userId (q.sees n m userId (.updateDelivery id x changes) (.ok ()))
      (s.updateDelivery id x changes) := by
  obtain ⟨hredis, hqueue, hclock⟩ := beside_updateDelivery s id x changes
  obtain ⟨row, hrow, huser, hpending⟩ := h.row
  have hstored : ∃ row', (s.updateDelivery id x changes).notices.get n = some row' ∧
      row'.userId = userId ∧ (row'.status m = .pending ↔
        (q.sees n m userId (.updateDelivery id x changes) (.ok ())).pending = true) := by
    rw [get_updateDelivery]
    by_cases hid : n = id
    · subst hid
      rw [if_pos rfl, hrow]
      refine ⟨row.update x changes, rfl, huser, ?_⟩
      by_cases hx : x = m
      · subst hx
        rw [status_update_self]
        have hsees : (q.sees n x userId (.updateDelivery n x changes) (.ok ())).pending =
            (q.pending && decide (changes.status.all (· = .pending) = true)) := by
          show Care.pending (if _ then _ else _) = _
          rw [if_pos ⟨rfl, rfl⟩]
        rw [hsees, Bool.and_eq_true, decide_eq_true_eq]
        cases hstatus : changes.status with
        | none => simp [hpending]
        | some status =>
            simp only [Option.getD_some, Option.all_some, decide_eq_true_eq]
            refine ⟨fun hp => ⟨hallowed rfl rfl (by rw [hstatus, hp]), hp⟩, fun hp => hp.2⟩
      · rw [status_update_of_ne (Ne.symm hx)]
        have hsees : q.sees n m userId (.updateDelivery n x changes) (.ok ()) = q :=
          if_neg fun hk => hx hk.2
        rw [hsees]
        exact hpending
    · rw [if_neg hid]
      have hsees : q.sees n m userId (.updateDelivery id x changes) (.ok ()) = q :=
        if_neg fun hk => hid hk.1.symm
      rw [hsees]
      exact ⟨row, hrow, huser, hpending⟩
  have hsees : ∃ pending, q.sees n m userId (.updateDelivery id x changes) (.ok ()) =
      { q with pending := pending } := by
    by_cases hkey : id = n ∧ x = m
    · exact ⟨_, if_pos hkey⟩
    · exact ⟨q.pending, if_neg hkey⟩
  obtain ⟨pending, hsees⟩ := hsees
  rw [hsees] at hstored ⊢
  refine ⟨hstored, ?_, ?_, ?_, ?_, ?_⟩
  · rw [hredis]
    exact h.hash
  · unfold Flagged
    rw [hredis, hclock]
    exact h.flag
  · unfold Queued
    rw [hqueue]
    exact h.summary
  · unfold SendQueued
    rw [hqueue]
    exact h.send
  · rw [hqueue]
    exact h.tries

theorem Shadows.put (h : Shadows n m userId q s) (hunexpired : Unexpired m userId s)
    (key : RedisKey) (id : ℕ) :
    Shadows n m userId (q.sees n m userId (.hashSet key id) (.ok ()))
      { s with redis := s.redis.hashSet s.clock key id } := by
  have hkeep : n ∈ s.redis.fields (.cargoDigestPending m userId) →
      n ∈ (s.redis.hashSet s.clock key id).fields (.cargoDigestPending m userId) := by
    intro hin
    unfold Redis.hashSet
    rw [fields_withHash]
    split
    · rename_i hkey
      rw [← hkey, hash_of_unexpired hunexpired]
      split
      · exact hin
      · exact List.mem_append_left _ hin
    · exact hin
  show Shadows n m userId (if _ then _ else _) _
  split
  · rename_i hkey
    obtain ⟨rfl, rfl⟩ := hkey
    refine ⟨h.row, fun _ => ?_, h.flag, h.summary, h.send, h.tries⟩
    show _ ∈ (s.redis.hashSet s.clock _ _).fields _
    unfold Redis.hashSet
    rw [fields_withHash, if_pos rfl]
    split
    · assumption
    · simp
  · exact ⟨h.row, fun hin => hkeep (h.hash hin), h.flag, h.summary, h.send, h.tries⟩

theorem Shadows.taken (h : Shadows n m userId q s) (hunexpired : Unexpired m userId s)
    (key : RedisKey) (ids : List ℕ) :
    Shadows n m userId (q.sees n m userId (.hashDelete key ids) (.ok ()))
      { s with redis := s.redis.hashDelete s.clock key ids } := by
  show Shadows n m userId (if _ then _ else _) _
  split
  · exact ⟨h.row, (fun hin => by cases hin), h.flag, h.summary, h.send, h.tries⟩
  · rename_i hkey
    refine ⟨h.row, fun hin => ?_, h.flag, h.summary, h.send, h.tries⟩
    show n ∈ (s.redis.hashDelete s.clock key ids).fields _
    unfold Redis.hashDelete
    rw [fields_withHash]
    split
    · rename_i hk
      rw [← hk, hash_of_unexpired hunexpired]
      refine List.mem_filter.mpr ⟨h.hash hin, ?_⟩
      simpa using fun hn => hkey ⟨hk.symm, hn⟩
    · exact h.hash hin

theorem Shadows.flagSet (h : Shadows n m userId q s) (key : RedisKey) (ttl : ℕ) (first : Bool) :
    Shadows n m userId (q.sees n m userId (.setIfAbsent key ttl) (.ok first))
      { s with redis := s.redis.set s.clock key ttl } := by
  show Shadows n m userId (if _ then _ else _) _
  split
  · exact ⟨h.row, h.hash, fun _ => rfl, h.summary, h.send, h.tries⟩
  · rename_i hkey
    exact ⟨h.row, h.hash, fun hf => h.flag (live_of_set (fun hk => hkey hk.symm) hf), h.summary,
      h.send, h.tries⟩

theorem Shadows.flagKnown (h : Shadows n m userId q s) (key : RedisKey) (ttl : ℕ) (first : Bool) :
    Shadows n m userId (q.sees n m userId (.setIfAbsent key ttl) (.ok first)) s := by
  show Shadows n m userId (if _ then _ else _) _
  split
  · exact ⟨h.row, h.hash, fun _ => rfl, h.summary, h.send, h.tries⟩
  · exact h

theorem Shadows.cleared (h : Shadows n m userId q s) (key : RedisKey) :
    Shadows n m userId (q.sees n m userId (.delete key) (.ok ()))
      { s with redis := s.redis.delete key } := by
  show Shadows n m userId (if _ then _ else _) _
  split
  · rename_i hkey
    exact ⟨h.row, h.hash, fun hf => absurd hkey.symm (live_of_delete hf).1, h.summary, h.send, h.tries⟩
  · exact ⟨h.row, h.hash, fun hf => h.flag (live_of_delete hf).2, h.summary, h.send, h.tries⟩

theorem Shadows.queued (h : Shadows n m userId q s) {job : DeliveryJob} {time : ℕ}
    (htries : job.tries ≤ q.trouble.tries) :
    Shadows n m userId (q.queues n m userId job) { s with queue := s.queue ++ [⟨job, time⟩] } where
  row := h.row
  hash := h.hash
  flag := h.flag
  summary hs := by
    rcases Bool.or_eq_true_iff.mp hs with hs | hs
    · obtain ⟨x, hx, hjob⟩ := h.summary hs
      exact ⟨x, List.mem_append_left _ hx, hjob⟩
    · exact ⟨⟨job, time⟩, by simp, hs⟩
  send hs := by
    rcases Bool.or_eq_true_iff.mp hs with hs | hs
    · obtain ⟨x, hx, hjob⟩ := h.send hs
      exact ⟨x, List.mem_append_left _ hx, hjob⟩
    · exact ⟨⟨job, time⟩, by simp, hs⟩
  tries x hx := by
    rcases List.mem_append.mp hx with hx | hx
    · exact h.tries x hx
    · rw [List.mem_singleton.mp hx]
      exact htries

theorem Shadows.received (h : Shadows n m userId q s) (x : QueuedJob) :
    Shadows n m userId (q.takes n m userId x.job) { s with queue := s.queue.erase x } where
  row := h.row
  hash := h.hash
  flag := h.flag
  summary hs := by
    simp only [Care.takes, Bool.and_eq_true, Bool.not_eq_true'] at hs
    obtain ⟨y, hy, hjob⟩ := h.summary hs.1
    refine ⟨y, (List.mem_erase_of_ne ?_).mpr hy, hjob⟩
    rintro rfl
    rw [hs.2] at hjob
    cases hjob
  send hs := by
    simp only [Care.takes, Bool.and_eq_true, Bool.not_eq_true'] at hs
    obtain ⟨y, hy, hjob⟩ := h.send hs.1
    refine ⟨y, (List.mem_erase_of_ne ?_).mpr hy, hjob⟩
    rintro rfl
    rw [hs.2] at hjob
    cases hjob
  tries y hy := h.tries y (List.mem_of_mem_erase hy)

/-- **An answered command keeps what is known beside the store.** -/
theorem Shadows.answered (w : World) (h : Shadows n m userId q s)
    (hallowed : q.Allows n m userId c) (hunexpired : Unexpired m userId s) {a : Answer c}
    (ha : (exec w c s).1 = .ok a) :
    Shadows n m userId (q.sees n m userId c (.ok a)) (exec w c s).2 := by
  cases c with
  | updateDelivery id x changes => exact h.updated hallowed
  | hashSet key id => exact h.put hunexpired key id
  | hashDelete key ids => exact h.taken hunexpired key ids
  | setIfAbsent key ttl =>
      simp only [exec]
      split
      · exact h.flagKnown key ttl a
      · exact h.flagSet key ttl a
  | set key ttl =>
      exact ⟨h.row, h.hash, fun hf => h.flag (live_of_set (fun hk => hallowed hk.symm) hf),
        h.summary, h.send, h.tries⟩
  | delete key => exact h.cleared key
  | expire key ttl =>
      have hredis : (s.redis.expire s.clock key ttl).fields = s.redis.fields ∧
          (s.redis.expire s.clock key ttl).expiresAt = s.redis.expiresAt := by
        unfold Redis.expire
        split <;> exact ⟨rfl, rfl⟩
      refine ⟨h.row, fun hin => ?_, fun hf => h.flag ?_, h.summary, h.send, h.tries⟩
      · show n ∈ (s.redis.expire s.clock key ttl).fields _
        rw [hredis.1]
        exact h.hash hin
      · unfold Flagged Redis.live at hf ⊢
        rw [← hredis.2]
        exact hf
  | publish job delay =>
      cases hw : w.published with
      | error e => simp [exec, hw] at ha
      | ok _ =>
          simp only [exec, hw]
          exact h.queued hallowed
  | nack job requeue =>
      cases requeue with
      | true => exact h.queued hallowed
      | false => exact h
  | receive x =>
      cases hx : (s.available x)[w.turn]? with
      | none =>
          simp only [exec, hx, Except.ok.injEq] at ha ⊢
          subst ha
          exact h
      | some y =>
          simp only [exec, hx, Except.ok.injEq] at ha ⊢
          subst ha
          exact h.received y
  | failExpired x time => exact hallowed.elim
  | scheduleRetry ids time => exact hallowed.elim
  | insertIgnoringDuplicates rows => exact hallowed.elim
  | _ => exact ⟨h.row, h.hash, h.flag, h.summary, h.send, h.tries⟩

/-- What is answered fits what is known. -/
theorem Shadows.fits (w : World) (h : Shadows n m userId q s) (hunexpired : Unexpired m userId s)
    {a : Answer c} (ha : (exec w c s).1 = .ok a) : q.Fits n m userId c a := by
  obtain ⟨row, hrow, huser, hpending⟩ := h.row
  cases c with
  | findWithListing use id =>
      obtain rfl := Except.ok.inj ha
      constructor
      · intro found hfound
        obtain ⟨stored, hstored, rfl⟩ := Option.map_eq_some_iff.mp hfound
        exact Table.key_of_get hstored
      · rintro rfl
        exact ⟨s.loaded row, by simp [hrow], huser, hpending⟩
  | findManyWithListing ids =>
      obtain rfl := Except.ok.inj ha
      intro hn hp
      refine ⟨s.loaded row, ?_, Table.key_of_get hrow, hpending.mpr hp⟩
      apply List.mem_map_of_mem
      rw [mem_byCreation]
      refine List.mem_filter.mpr ⟨Table.mem_of_get hrow, ?_⟩
      rw [Table.key_of_get hrow]
      exact decide_eq_true hn
  | hashGetAll key =>
      obtain rfl := Except.ok.inj ha
      rintro rfl hin
      rw [hash_of_unexpired hunexpired]
      exact h.hash hin
  | setIfAbsent key ttl =>
      rintro rfl hfirst
      subst hfirst
      by_cases hlive : s.redis.live s.clock (.cargoDigestScheduled m userId) = true
      · exact h.flag hlive
      · simp [exec, hlive] at ha
  | receive x =>
      intro job hjob
      cases hx : (s.available x)[w.turn]? with
      | none =>
          simp only [exec, hx, Except.ok.injEq] at ha
          rw [← ha] at hjob
          cases hjob
      | some y =>
          simp only [exec, hx, Except.ok.injEq] at ha
          rw [← ha] at hjob
          obtain rfl := Option.some.inj hjob
          exact h.tries y (List.mem_of_mem_filter (List.mem_of_getElem? hx))
  | _ => trivial

theorem trouble_sees (r : Resp c) : (q.sees n m userId c r).trouble = q.trouble := by
  cases r with
  | error e => rw [sees_error]
  | ok a =>
      cases c with
      | nack job requeue => cases requeue <;> rfl
      | receive x => cases a <;> rfl
      | _ => first | rfl | (show Care.trouble (if _ then _ else _) = _; split <;> rfl)

/-- A notice held stays one that was held. -/
theorem held_sees (r : Resp c) (h : q.held = true) : (q.sees n m userId c r).held = true := by
  cases r with
  | error e =>
      rw [sees_error]
      exact h
  | ok a =>
      cases c with
      | updateDelivery id x changes =>
          show Care.held (if _ then _ else _) = true
          split <;> exact h
      | hashSet key id =>
          show Care.held (if _ then _ else _) = true
          split
          · rfl
          · exact h
      | hashDelete key ids =>
          show Care.held (if _ then _ else _) = true
          split
          · rfl
          · exact h
      | setIfAbsent key ttl =>
          show Care.held (if _ then _ else _) = true
          split <;> exact h
      | delete key =>
          show Care.held (if _ then _ else _) = true
          split <;> exact h
      | nack job requeue => cases requeue <;> exact h
      | receive x => cases a <;> exact h
      | _ => exact h

/-- A notice put or taken out was held. -/
theorem held_of_event {pid : ℕ} {r : Resp c}
    (h : puts m userId n (.act pid c r) = true ∨ takesOut n m userId (.act pid c r) = true) :
    (q.sees n m userId c r).held = true := by
  cases c with
  | hashSet key id =>
      cases r with
      | error e => rcases h with h | h <;> cases h
      | ok a =>
          rcases h with h | h
          · show Care.held (if _ then _ else _) = true
            rw [if_pos (of_decide_eq_true h)]
          · cases h
  | hashDelete key ids =>
      cases r with
      | error e => rcases h with h | h <;> cases h
      | ok a =>
          rcases h with h | h
          · cases h
          · show Care.held (if _ then _ else _) = true
            rw [if_pos (of_decide_eq_true h)]
  | _ => rcases h with h | h <;> cases h

/-- What a call's step adds to the trace. -/
theorem Traces.act (h : Traces n m userId tr q) (pid : ℕ) (r : Resp c) :
    Traces n m userId (.act pid c r :: tr) ((careMonitor n m userId).next q c r) where
  held := by
    rintro ⟨e, he, hheld⟩
    rcases List.mem_cons.mp he with rfl | he
    · exact held_of_event hheld
    · exact held_sees r (h.held ⟨e, he, hheld⟩)
  trouble := by
    intro hall
    have hnone : q.trouble = .none := h.trouble fun e he => hall e (List.mem_cons_of_mem _ he)
    have hfine : failing c r = false := hall _ List.mem_cons_self
    show q.trouble.next c r = .none
    rw [hnone]
    cases r with
    | error e =>
        rw [trouble_error, if_neg (by rw [show canFail c = false from hfine]; decide)]
    | ok a =>
        cases c with
        | receive x => cases a <;> rfl
        | _ => rfl
  cut := by
    show q.cut.next c r = (cutAt tr).next c r
    rw [h.cut]

/-- **One command of a consumer**: what it is answered can be had, and what is known stays beside the
trace and the store. -/
theorem step_act {t : Turn} {pid : ℕ} {b : Conf Resp Fault Store} {r : Resp c} {s' : Store}
    (hs : Shadows n m userId q b.store) (ht : Traces n m userId tr q)
    (hallowed : q.Allows n m userId c) (hx : attempt t c b.store = (r, s'))
    (hok : Spares m userId tr b (.act pid c r)) :
    q.Answers n m userId c r ∧ Shadows n m userId ((careMonitor n m userId).next q c r) s' := by
  obtain ⟨⟨_, hone, hunexpired⟩, hspares⟩ := hok
  have hanswers : q.Answers n m userId c r := by
    rcases attempt_cases t c b.store with ⟨e, he, hfail⟩ | ⟨a, he, ha⟩
    · obtain ⟨rfl, rfl⟩ := Prod.mk.inj (hx.symm.trans he)
      cases hc : canFail c with
      | false =>
          refine .inl ⟨hfail.resolve_left ?_, hc⟩
          rw [hc]
          decide
      | true =>
          have hfailed : failed (.act pid c (.error e)) = true := hc
          refine .inr ⟨hc, ht.trouble (hone hfailed), ?_⟩
          rw [ht.cut]
          simpa [stranding, failing, hc] using hspares
    · obtain ⟨rfl, rfl⟩ := Prod.mk.inj (hx.symm.trans he)
      exact hs.fits t.world hunexpired ha
  refine ⟨hanswers, ?_⟩
  have hage := (aged_step q c r hanswers).2
  rcases attempt_cases t c b.store with ⟨e, he, _⟩ | ⟨a, he, ha⟩
  · obtain ⟨rfl, rfl⟩ := Prod.mk.inj (hx.symm.trans he)
    have hnext : (careMonitor n m userId).next q c (.error e) =
        { q with trouble := q.trouble.next c (.error e), cut := q.cut.next c (.error e) } := by
      simp only [careMonitor, sees_error]
    rw [hnext] at hage ⊢
    exact hs.relabel hage
  · obtain ⟨rfl, rfl⟩ := Prod.mk.inj (hx.symm.trans he)
    refine (hs.answered t.world hallowed hunexpired ha).relabel ?_
    rw [trouble_sees]
    exact hage

end Step

/-! ### Whole runs -/

section Runs

variable {n : ℕ} {m : Messenger} {userId window : ℕ} {tr : List (Event Resp)} {s₀ : Store}
  {b : Conf Resp Fault Store} {row₀ : CargoNotification}

/-- Nothing held, nothing queued that is known of. -/
def Care.first (pending : Bool) : Care := ⟨pending, false, false, false, false, false, .none, .clear⟩

theorem shadows_first (hredis : s₀.redis = .empty) (hqueue : ∀ x ∈ s₀.queue, x.job.tries = 0)
    (hrow₀ : s₀.notices.get n = some row₀) :
    Shadows n m row₀.userId (Care.first (row₀.status m = .pending)) s₀ where
  row := ⟨row₀, hrow₀, rfl, by simp [Care.first]⟩
  hash hin := by cases hin
  flag hf := by
    unfold Flagged at hf
    rw [hredis] at hf
    cases hf
  summary hs := by cases hs
  send hs := by cases hs
  tries x hx := by rw [hqueue x hx]; exact Nat.zero_le _

/-- The wait makes no flag, and a load's change leaves its notices. -/
theorem Shadows.passed {q : Care} {s : Store} (h : Shadows n m userId q s) (o : Passing) :
    Shadows n m userId q (passing o s) := by
  cases o with
  | listing l => exact ⟨h.row, h.hash, h.flag, h.summary, h.send, h.tries⟩
  | wait ms =>
      refine ⟨h.row, h.hash, fun hf => h.flag ?_, h.summary, h.send, h.tries⟩
      unfold Flagged Redis.live at hf ⊢
      rw [Option.any_eq_true] at hf ⊢
      obtain ⟨time, ht, hlater⟩ := hf
      refine ⟨time, ht, ?_⟩
      simp only [decide_eq_true_eq] at hlater ⊢
      exact Nat.lt_of_le_of_lt (Nat.le_add_right _ ms) hlater

theorem Traces.aside {q : Care} {e : Event Resp} (h : Traces n m userId tr q)
    (he : ∀ pid c r, e ≠ .act pid c r) : Traces n m userId (e :: tr) q := by
  cases e with
  | act pid c r => exact absurd rfl (he pid c r)
  | outside =>
      refine ⟨?_, fun hall => h.trouble fun x hx => hall x (List.mem_cons_of_mem _ hx), h.cut⟩
      rintro ⟨x, hx, hheld⟩
      rcases List.mem_cons.mp hx with rfl | hx
      · rcases hheld with hheld | hheld <;> cases hheld
      · exact h.held ⟨x, hx, hheld⟩
  | start pid =>
      refine ⟨?_, fun hall => h.trouble fun x hx => hall x (List.mem_cons_of_mem _ hx), h.cut⟩
      rintro ⟨x, hx, hheld⟩
      rcases List.mem_cons.mp hx with rfl | hx
      · rcases hheld with hheld | hheld <;> cases hheld
      · exact h.held ⟨x, hx, hheld⟩

/-- Whenever no job is in progress, the notice is looked after. -/
theorem looked_run (hredis : s₀.redis = .empty) (hqueue : ∀ x ∈ s₀.queue, x.job.tries = 0)
    (hrow₀ : s₀.notices.get n = some row₀)
    (h : (consumerMachine window).Run (Spares m row₀.userId) (.start s₀) tr b) :
    ∃ q, Shadows n m row₀.userId q b.store ∧ Traces n m row₀.userId tr q ∧
      (b.Quiet → Looked q) := by
  have hfirst : Looked (Care.first (row₀.status m = .pending)) :=
    ⟨(fun hf => by cases hf), fun hheld => by cases hheld⟩
  have htraces : Traces n m row₀.userId [] (Care.first (row₀.status m = .pending)) := by
    refine ⟨?_, fun _ => rfl, rfl⟩
    rintro ⟨e, he, _⟩
    cases he
  have hrun := Run.serial_ends (μ := careMonitor n m row₀.userId)
    (fun tr _ q s => Shadows n m row₀.userId q s ∧ Traces n m row₀.userId tr q) Looked
    (fun _ _ _ hok => hok.1.1)
    ⟨0, _, ⟨shadows_first hredis hqueue hrow₀, htraces⟩, hfirst⟩ ?_ ?_ ?_ h
  · obtain ⟨_, q, hq, hlooked, _⟩ := hrun
    exact ⟨q, hq.1, hq.2, hlooked⟩
  · intro tr pid q b call p s' hI hlooked hb _
    cases hb
    exact ⟨q, ⟨hI.1, hI.2.aside fun _ _ _ hcontra => by cases hcontra⟩, accepts_consume call hlooked⟩
  · intro tr pid q b o s' hI ho _
    cases ho
    exact ⟨hI.1.passed o, hI.2.aside fun _ _ _ hcontra => by cases hcontra⟩
  · intro tr pid q b t c r s' hI hallowed hx hok
    obtain ⟨hanswers, hshadows⟩ := step_act hI.1 hI.2 hallowed (Option.some.inj hx) hok
    exact ⟨hanswers, hshadows, hI.2.act pid r⟩

/-- **A failing step strands no held load.**  In every run of the consumers, one job after another,
where one step at most fails and that failure is none of those that leave a load behind: whenever no
job is in progress, a notice that was held for a summary or taken out of the hash and is pending in
that messenger has its own job queued, or is in the hash while a summary is queued, or is due to be
tried again. -/
theorem held_has_way {row : CargoNotification} (hredis : s₀.redis = .empty)
    (hqueue : ∀ x ∈ s₀.queue, x.job.tries = 0) (hrow₀ : s₀.notices.get n = some row₀)
    (h : (consumerMachine window).Run (Spares m row₀.userId) (.start s₀) tr b) (hquiet : b.Quiet)
    (hunexpired : Unexpired m row₀.userId b.store) (hheld : WasHeld n m row₀.userId tr)
    (hrow : b.store.notices.get n = some row) (hpending : row.status m = .pending) :
    HasWay n m row₀.userId b.store row := by
  obtain ⟨q, hs, ht, hlooked⟩ := looked_run (m := m) hredis hqueue hrow₀ h
  obtain ⟨stored, hstored, _, hstatus⟩ := hs.row
  obtain rfl := Option.some.inj (hstored.symm.trans hrow)
  rcases (hlooked hquiet).2 (ht.held hheld) (hstatus.mp hpending) with hsend | ⟨hin, hsummary⟩ | hno
  · exact .inl (hs.send hsend)
  · refine .inr (.inl ⟨?_, hs.summary hsummary⟩)
    rw [hash_of_unexpired hunexpired]
    exact hs.hash hin
  · exact hno.elim

end Runs

/-! ### Two loads for one driver, and one failure -/

/-- Driver 7 has linked Bale alone. -/
def onBaleAlone (listingId : ℕ) : NewCargoNotification where
  userId := 7
  listingId := listingId
  status m := if m = .bale then .pending else .skipped

/-- Two open loads, the driver's notice of each, and the job of each notice. -/
def twoQueued : Store :=
  { oneOpenLoad with
    listings := oneOpenLoad.listings.put { openLoad with id := 2, sourceMessageId := "2" }
    notices := (Table.empty.put ((onBaleAlone 1).row 1 100000000)).put
      ((onBaleAlone 2).row 2 100000000)
    queue := [⟨⟨1, .bale, .send, 0⟩, 100000000⟩, ⟨⟨2, .bale, .send, 0⟩, 100000000⟩] }

/-- A consumer takes its next steps, and all goes well. -/
def goes (pid steps : ℕ) : List (consumerMachine 120).Label :=
  List.replicate steps (.act pid ⟨onBale, none⟩)

/-- A step of a consumer fails. -/
def fails (pid : ℕ) : List (consumerMachine 120).Label := [.act pid ⟨onBale, some ⟨none, none⟩⟩]

/-- The first load goes alone; the second is held, up to the publish of its summary. -/
def heldSecond : List (consumerMachine 120).Label :=
  [[.start .bale], goes 0 11, [.start .bale], goes 1 10].flatten

/-- The summary of the second load cannot read the hash, and is queued again. -/
def hashUnread : List (consumerMachine 120).Label :=
  [heldSecond, goes 1 1, [.outside (.wait 120000), .start .bale], goes 2 3, fails 2, goes 2 3].flatten

theorem held_has_way_hash_unread :
    ∃ tr b row, (consumerMachine 120).Run (Spares .bale 7) (.start twoQueued) tr b ∧ b.Quiet ∧
      WasHeld 2 .bale 7 tr ∧ b.store.notices.get 2 = some row ∧ row.status .bale = .pending ∧
      HasWay 2 .bale 7 b.store row := by
  have hplay : ((consumerMachine 120).play (Spares .bale 7) [] (.start twoQueued) hashUnread).any
      (fun x => x.2.Quiet ∧ Unexpired .bale 7 x.2.store ∧ WasHeld 2 .bale 7 x.1 ∧
        (x.2.store.notices.get 2).any (fun row => row.status .bale = .pending) = true) = true := by
    decide
  simp only [Option.any_eq_true, decide_eq_true_eq] at hplay
  obtain ⟨⟨tr, b⟩, hp, hquiet, hunexpired, hheld, row, hrow, hpending⟩ := hplay
  have hrun := Machine.play_run .nil hp
  have hway := held_has_way rfl (by decide)
    (show twoQueued.notices.get 2 = some ((onBaleAlone 2).row 2 100000000) from rfl) hrun hquiet
    hunexpired hheld hrow hpending
  exact ⟨tr, b, row, hrun, hquiet, hheld, hrow, hpending, hway⟩

/-- The summary takes the second load out of the hash and cannot read its row. -/
def rowUnread : List (consumerMachine 120).Label :=
  [heldSecond, goes 1 1, [.outside (.wait 120000), .start .bale], goes 2 5, fails 2, goes 2 3].flatten

/-- The summary comes again and finds nothing: the notice is pending, and nothing brings it on. -/
theorem read_fails_after_taking :
    ¬∀ tr b n row, (consumerMachine 120).Run (OneFails .bale 7) (.start twoQueued) tr b → b.Quiet →
      Unexpired .bale 7 b.store → WasHeld n .bale 7 tr → b.store.notices.get n = some row →
      row.status .bale = .pending → HasWay n .bale 7 b.store row := by
  intro hclaim
  have hplay : ((consumerMachine 120).play (OneFails .bale 7) [] (.start twoQueued) rowUnread).any
      (fun x => x.2.Quiet ∧ Unexpired .bale 7 x.2.store ∧ WasHeld 2 .bale 7 x.1 ∧
        (x.2.store.notices.get 2).any (fun row => row.status .bale = .pending ∧
          ¬HasWay 2 .bale 7 x.2.store row) = true) = true := by
    decide
  simp only [Option.any_eq_true, decide_eq_true_eq] at hplay
  obtain ⟨⟨tr, b⟩, hp, hquiet, hunexpired, hheld, row, hrow, hpending, hnoway⟩ := hplay
  exact hnoway (hclaim tr b 2 row (Machine.play_run .nil hp) hquiet hunexpired hheld hrow hpending)

/-- The summary of the second load cannot be queued, and the load's job is put back. -/
def summaryUnqueued : List (consumerMachine 120).Label :=
  [heldSecond, fails 1, goes 1 1, [.start .bale], goes 2 7].flatten

/-- The job comes again and finds the flag set: it counts on a summary that is not queued. -/
theorem publish_fails_with_flag :
    ¬∀ tr b n row, (consumerMachine 120).Run (OneFails .bale 7) (.start twoQueued) tr b → b.Quiet →
      Unexpired .bale 7 b.store → WasHeld n .bale 7 tr → b.store.notices.get n = some row →
      row.status .bale = .pending → HasWay n .bale 7 b.store row := by
  intro hclaim
  have hplay : ((consumerMachine 120).play (OneFails .bale 7) [] (.start twoQueued)
      summaryUnqueued).any
      (fun x => x.2.Quiet ∧ Unexpired .bale 7 x.2.store ∧ WasHeld 2 .bale 7 x.1 ∧
        (x.2.store.notices.get 2).any (fun row => row.status .bale = .pending ∧
          ¬HasWay 2 .bale 7 x.2.store row) = true) = true := by
    decide
  simp only [Option.any_eq_true, decide_eq_true_eq] at hplay
  obtain ⟨⟨tr, b⟩, hp, hquiet, hunexpired, hheld, row, hrow, hpending, hnoway⟩ := hplay
  exact hnoway (hclaim tr b 2 row (Machine.play_run .nil hp) hquiet hunexpired hheld hrow hpending)

end TransportBackend.NoticeStranded
