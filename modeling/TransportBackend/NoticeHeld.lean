import TransportBackend.NoticeDigest
import TransportBackend.NoticeInterleaving

/-!
# No held load is forgotten

Any number of loads held and summaries sent at once, for one driver in one messenger, while no
command and no publish fails and the hash does not expire.

* `Unread` — an id was put into the hash and no summary has read it since;
* `held_not_forgotten` — **such an id is still in the hash while somebody is to read it**: a job is
  queued, or a call has one in hand, or has cleared the flag and not read yet, or has the flag and
  not queued its job yet, or has put the id and not asked for the flag yet.

One exception is real (`put_again_in_hands`): an id put again while a summary that has read it is
about to take it out is taken out with the others; that summary has it.
-/

namespace TransportBackend.NoticeHeld

open TransportBackend.AtomicProgram
open TransportBackend.InterleavedRun
open TransportBackend.MonitoredProgram
open TransportBackend.KeyedTable
open TransportBackend.NoticeStore
open TransportBackend.NoticeService
open TransportBackend.NoticeMonitor
open TransportBackend.NoticeDigest
open TransportBackend.NoticeInterleaving (responds_exec oneOpenLoad onBale)

/-! ### The machine and its runs -/

/-- Loads held and jobs handled, interleaved. -/
def digestMachine (window : ℕ) : Machine Resp Fault Store := deliveryMachine (digestProgram window)

/-- The hash has not reached the end of its `DIGEST_KEEP_SECONDS`. -/
def Unexpired (m : Messenger) (userId : ℕ) (s : Store) : Prop :=
  (s.redis.fieldsExpireAt (.cargoDigestPending m userId)).all (s.clock < ·) = true

instance (m : Messenger) (userId : ℕ) (s : Store) : Decidable (Unexpired m userId s) :=
  inferInstanceAs (Decidable
    ((s.redis.fieldsExpireAt (.cargoDigestPending m userId)).all (s.clock < ·) = true))

/-- A publish that failed. -/
def unpublished : Event Resp → Bool
  | .act _ (.publish _ _) (.error _) => true
  | _ => false

/-- No publish fails and the hash does not expire. -/
def Works (m : Messenger) (userId : ℕ) (_ : List (Event Resp)) (b : Conf Resp Fault Store)
    (e : Event Resp) : Prop :=
  unpublished e = false ∧ Unexpired m userId b.store

instance (m : Messenger) (userId : ℕ) (tr : List (Event Resp)) (b : Conf Resp Fault Store)
    (e : Event Resp) : Decidable (Works m userId tr b e) :=
  inferInstanceAs (Decidable (unpublished e = false ∧ Unexpired m userId b.store))

/-! ### Reading a run -/

section Reading

variable (m : Messenger) (userId : ℕ)

/-- Where a call stands with this driver's summary. -/
def stageOf (tr : List (Event Resp)) (pid : ℕ) : Stage :=
  stateOf (digestMonitor m userId) .free tr pid

/-- The id was put into the hash at this event. -/
def puts (n : ℕ) : Event Resp → Bool
  | .act _ (.hashSet key x) (.ok _) => key = .cargoDigestPending m userId ∧ x = n
  | _ => false

/-- A summary read the id at this event. -/
def reads (n : ℕ) : Event Resp → Bool
  | .act _ (.hashGetAll key) (.ok ids) => key = .cargoDigestPending m userId ∧ n ∈ ids
  | _ => false

/-- The id was put and not read since it was last put. -/
def Unread : List (Event Resp) → ℕ → Prop
  | [], _ => False
  | e :: tr, n => puts m userId n e = true ∨ (reads m userId n e = false ∧ Unread tr n)

instance decidableUnread : (tr : List (Event Resp)) → (n : ℕ) → Decidable (Unread m userId tr n)
  | [], _ => inferInstanceAs (Decidable False)
  | e :: tr, n =>
      have := decidableUnread tr n
      inferInstanceAs (Decidable (puts m userId n e = true ∨
        (reads m userId n e = false ∧ Unread m userId tr n)))

/-- A summary that has read the id is about to take it out. -/
def InHands (tr : List (Event Resp)) (n : ℕ) : Prop :=
  ∃ pid ids, stageOf m userId tr pid = .took ids ∧ n ∈ ids

/-- When the id was last put, a summary had it in its hands. -/
def PutInHands : List (Event Resp) → ℕ → Prop
  | [], _ => False
  | e :: tr, n => (puts m userId n e = true ∧ InHands m userId tr n) ∨
      (puts m userId n e = false ∧ PutInHands tr n)

/-- A job of the summary is queued. -/
def Queued (s : Store) : Prop := ∃ x ∈ s.queue, isDigest m userId x.job = true

instance (s : Store) : Decidable (Queued m userId s) :=
  inferInstanceAs (Decidable (∃ x ∈ s.queue, isDigest m userId x.job = true))

/-- A call that is to read the hash, or to queue the job of one that will. -/
def Stage.toRead : Stage → Bool
  | .owes => true
  | .due => true
  | .cleared => true
  | _ => false

/-- A call in progress. -/
def InProgress (b : Conf Resp Fault Store) (pid : ℕ) : Prop :=
  ∃ p, b.pool[pid]? = some p ∧ p.finished = false

/-- Somebody is to read the id. -/
def Expected (tr : List (Event Resp)) (b : Conf Resp Fault Store) (n : ℕ) : Prop :=
  Queued m userId b.store ∨ ∃ pid, InProgress b pid ∧
    (Stage.toRead (stageOf m userId tr pid) = true ∨ n ∈ (stageOf m userId tr pid).ids)

end Reading

/-! ### What a command does to the hash, the flag and the queue -/

section Effects

variable {m : Messenger} {userId : ℕ} {w : World} {c : Cmd} {s : Store}

/-- The flag is set. -/
def Flagged (m : Messenger) (userId : ℕ) (s : Store) : Prop :=
  s.redis.live s.clock (.cargoDigestScheduled m userId) = true

theorem fields_withHash {redis : Redis} {now : ℕ} {key key' : RedisKey} {fields : List ℕ} :
    (redis.withHash now key fields).fields key' =
      if key' = key then fields else redis.fields key' := by
  unfold Redis.withHash
  simp [Function.update_apply]

theorem live_of_delete {redis : Redis} {now : ℕ} {key key' : RedisKey}
    (h : (redis.delete key).live now key' = true) : key' ≠ key ∧ redis.live now key' = true := by
  change (Function.update redis.expiresAt key none key').any (now < ·) = true at h
  by_cases hk : key' = key
  · simp [hk] at h
  · rw [Function.update_of_ne hk] at h
    exact ⟨hk, h⟩

theorem live_of_set {redis : Redis} {now ttl : ℕ} {key key' : RedisKey} (hk : key' ≠ key)
    (h : (redis.set now key ttl).live now key' = true) : redis.live now key' = true := by
  change (Function.update redis.expiresAt key _ key').any (now < ·) = true at h
  rwa [Function.update_of_ne hk] at h

/-- Redis, the queue and the clock are as they were. -/
def Beside (s s' : Store) : Prop := s'.redis = s.redis ∧ s'.queue = s.queue ∧ s'.clock = s.clock

theorem beside_insertIgnoring (s : Store) (new : NewCargoNotification) :
    Beside s (s.insertIgnoring new) := by
  unfold Store.insertIgnoring
  split <;> exact ⟨rfl, rfl, rfl⟩

theorem beside_foldl_insertIgnoring (rows : List NewCargoNotification) :
    ∀ s : Store, Beside s (rows.foldl Store.insertIgnoring s) := by
  induction rows with
  | nil => exact fun s => ⟨rfl, rfl, rfl⟩
  | cons new rows ih =>
      intro s
      obtain ⟨h1, h2, h3⟩ := ih (s.insertIgnoring new)
      obtain ⟨g1, g2, g3⟩ := beside_insertIgnoring s new
      exact ⟨h1.trans g1, h2.trans g2, h3.trans g3⟩

theorem beside_updateDelivery (s : Store) (id : ℕ) (x : Messenger)
    (changes : CargoNotificationDelivery) : Beside s (s.updateDelivery id x changes) := by
  unfold Store.updateDelivery
  split <;> exact ⟨rfl, rfl, rfl⟩

/-- A command that does not concern this driver leaves the hash, sets no flag and takes no job of the
summary off the queue. -/
theorem exec_unconcerned (h : concerns m userId c = false) :
    (exec w c s).2.redis.fields (.cargoDigestPending m userId) =
        s.redis.fields (.cargoDigestPending m userId) ∧
      (Flagged m userId (exec w c s).2 → Flagged m userId s) ∧
      (Queued m userId s → Queued m userId (exec w c s).2) := by
  cases c with
  | hashSet key n =>
      have hkey : key ≠ .cargoDigestPending m userId := of_decide_eq_false h
      refine ⟨?_, fun hf => hf, fun hq => hq⟩
      exact fields_withHash.trans (if_neg fun h => hkey h.symm)
  | hashDelete key ids =>
      have hkey : key ≠ .cargoDigestPending m userId := of_decide_eq_false h
      refine ⟨?_, fun hf => hf, fun hq => hq⟩
      exact fields_withHash.trans (if_neg fun h => hkey h.symm)
  | setIfAbsent key ttl =>
      have hkey : key ≠ .cargoDigestScheduled m userId := of_decide_eq_false h
      simp only [exec]
      split
      · exact ⟨rfl, fun hf => hf, fun hq => hq⟩
      · exact ⟨rfl, fun hf => live_of_set (fun h => hkey h.symm) hf, fun hq => hq⟩
  | set key ttl =>
      have hkey : key ≠ .cargoDigestScheduled m userId := of_decide_eq_false h
      exact ⟨rfl, fun hf => live_of_set (fun h => hkey h.symm) hf, fun hq => hq⟩
  | delete key => exact ⟨rfl, fun hf => (live_of_delete hf).2, fun hq => hq⟩
  | expire key ttl =>
      have hredis : (s.redis.expire s.clock key ttl).fields = s.redis.fields ∧
          (s.redis.expire s.clock key ttl).expiresAt = s.redis.expiresAt := by
        unfold Redis.expire
        split <;> exact ⟨rfl, rfl⟩
      refine ⟨congrFun hredis.1 _, fun hf => ?_, fun hq => hq⟩
      show s.redis.live s.clock _ = true
      unfold Redis.live
      rw [← hredis.2]
      exact hf
  | publish job delay =>
      simp only [exec]
      split
      · refine ⟨rfl, fun hf => hf, fun hq => ?_⟩
        obtain ⟨x, hx, hjob⟩ := hq
        exact ⟨x, List.mem_append_left _ hx, hjob⟩
      · exact ⟨rfl, fun hf => hf, fun hq => hq⟩
  | nack job requeue =>
      simp only [exec]
      cases requeue with
      | true =>
          refine ⟨rfl, fun hf => hf, fun hq => ?_⟩
          obtain ⟨x, hx, hjob⟩ := hq
          exact ⟨x, List.mem_append_left _ hx, hjob⟩
      | false => exact ⟨rfl, fun hf => hf, fun hq => hq⟩
  | receive x => cases h
  | insertIgnoringDuplicates rows =>
      obtain ⟨h1, h2, h3⟩ := beside_foldl_insertIgnoring rows s
      simp only [exec, Flagged, Queued, h1, h2, h3]
      exact ⟨trivial, fun hf => hf, fun hq => hq⟩
  | updateDelivery id x changes =>
      obtain ⟨h1, h2, h3⟩ := beside_updateDelivery s id x changes
      simp only [exec, Flagged, Queued, h1, h2, h3]
      exact ⟨trivial, fun hf => hf, fun hq => hq⟩
  | _ => exact ⟨rfl, fun hf => hf, fun hq => hq⟩

end Effects

/-! ### The invariant -/

/-- The flag and the ids are looked after: the flag is set only while a job is queued or somebody is
to queue or to handle one; and an id put while in no hands and not read since is in the hash, in no
hands, and expected by somebody. -/
structure LookedAfter (m : Messenger) (userId : ℕ) (tr : List (Event Resp)) (s : Store) : Prop where
  flag : Flagged m userId s → Queued m userId s ∨
    ∃ pid, stageOf m userId tr pid = .owes ∨ stageOf m userId tr pid = .due
  held : ∀ n, Unread m userId tr n → ¬PutInHands m userId tr n →
    n ∈ s.redis.fields (.cargoDigestPending m userId) ∧ ¬InHands m userId tr n ∧
      (Queued m userId s ∨ ∃ pid, Stage.toRead (stageOf m userId tr pid) = true ∨
        n ∈ (stageOf m userId tr pid).ids)

section Step

variable {m : Messenger} {userId : ℕ} {tr : List (Event Resp)} {s s' : Store} {pid : ℕ} {c : Cmd}
  {r : Resp c}

theorem stageOf_self : stageOf m userId (.act pid c r :: tr) pid =
    (digestMonitor m userId).next (stageOf m userId tr pid) c r := stateOf_act_self _ _ _ _

theorem stageOf_other {x : ℕ} (h : pid ≠ x) :
    stageOf m userId (.act pid c r :: tr) x = stageOf m userId tr x := stateOf_act_of_ne h

/-- A step that is not a call's command, or one that does not concern this driver, keeps everybody
where they stand. -/
theorem LookedAfter.same {e : Event Resp} (h : LookedAfter m userId tr s)
    (hstage : ∀ x, stageOf m userId (e :: tr) x = stageOf m userId tr x)
    (hputs : ∀ n, puts m userId n e = false)
    (hfields : s'.redis.fields (.cargoDigestPending m userId) =
      s.redis.fields (.cargoDigestPending m userId))
    (hflag : Flagged m userId s' → Flagged m userId s)
    (hqueue : Queued m userId s → Queued m userId s') : LookedAfter m userId (e :: tr) s' := by
  constructor
  · intro hf
    simp only [hstage]
    exact (h.flag (hflag hf)).imp_left hqueue
  · intro n hunread hput
    have hold : Unread m userId tr n := by
      rcases hunread with hp | ⟨_, hold⟩
      · rw [hputs n] at hp
        cases hp
      · exact hold
    have hnot : ¬PutInHands m userId tr n := fun hp => hput (.inr ⟨hputs n, hp⟩)
    obtain ⟨hin, hhands, hsome⟩ := h.held n hold hnot
    unfold InHands at hhands ⊢
    simp only [hstage]
    rw [hfields]
    exact ⟨hin, hhands, hsome.imp_left hqueue⟩

/-- Who has the flag or a job keeps it when the call that moved had neither. -/
theorem LookedAfter.flag_other (h : LookedAfter m userId tr s) (hs : Flagged m userId s)
    (hpid : Stage.toRead (stageOf m userId tr pid) = false) :
    Queued m userId s ∨ ∃ x, stageOf m userId (.act pid c r :: tr) x = .owes ∨
      stageOf m userId (.act pid c r :: tr) x = .due := by
  rcases h.flag hs with hq | ⟨x, hx⟩
  · exact .inl hq
  · have hne : pid ≠ x := by
      rintro rfl
      rcases hx with hx | hx <;> rw [hx] at hpid <;> cases hpid
    rw [← stageOf_other hne] at hx
    exact .inr ⟨x, hx⟩

/-- Who expects an id keeps expecting it when the call that moved did not, or still does. -/
theorem expected_other {n : ℕ}
    (hsome : Queued m userId s ∨ ∃ x, Stage.toRead (stageOf m userId tr x) = true ∨
      n ∈ (stageOf m userId tr x).ids)
    (hqueue : Queued m userId s → Queued m userId s')
    (hpid : Stage.toRead (stageOf m userId tr pid) = false)
    (hids : n ∈ (stageOf m userId tr pid).ids →
      n ∈ (stageOf m userId (.act pid c r :: tr) pid).ids) :
    Queued m userId s' ∨ ∃ x, Stage.toRead (stageOf m userId (.act pid c r :: tr) x) = true ∨
      n ∈ (stageOf m userId (.act pid c r :: tr) x).ids := by
  rcases hsome with hq | ⟨x, hx⟩
  · exact .inl (hqueue hq)
  · right
    by_cases hne : pid = x
    · subst hne
      refine ⟨pid, .inr (hids (hx.resolve_left fun h => ?_))⟩
      rw [hpid] at h
      cases h
    · refine ⟨x, ?_⟩
      rw [stageOf_other hne]
      exact hx

/-- Nobody takes an id into their hands but by reading it. -/
theorem not_inHands {n : ℕ} (h : ¬InHands m userId tr n)
    (hpid : ∀ ids, stageOf m userId (.act pid c r :: tr) pid = .took ids → n ∉ ids) :
    ¬InHands m userId (.act pid c r :: tr) n := by
  rintro ⟨x, ids, hx, hn⟩
  by_cases hne : pid = x
  · subst hne
    exact hpid ids hx hn
  · rw [stageOf_other hne] at hx
    exact h ⟨x, ids, hx, hn⟩

/-- An id that is not put at this event was unread before, and not put in hands. -/
theorem unread_before {n : ℕ} {e : Event Resp} (hputs : puts m userId n e = false)
    (hunread : Unread m userId (e :: tr) n) (hput : ¬PutInHands m userId (e :: tr) n) :
    reads m userId n e = false ∧ Unread m userId tr n ∧ ¬PutInHands m userId tr n := by
  rcases hunread with hp | ⟨hr, hold⟩
  · rw [hputs] at hp
    cases hp
  · exact ⟨hr, hold, fun hp => hput (.inr ⟨hputs, hp⟩)⟩

theorem hash_of_unexpired (h : Unexpired m userId s) :
    s.redis.hash s.clock (.cargoDigestPending m userId) =
      s.redis.fields (.cargoDigestPending m userId) := if_pos h

section Commands

variable {w : World}

/-- An id is put into the hash. -/
theorem LookedAfter.put {n₀ : ℕ} (h : LookedAfter m userId tr s) (hunexpired : Unexpired m userId s)
    (hstage : stageOf m userId tr pid = .free ∨ ∃ ids, stageOf m userId tr pid = .put ids) :
    LookedAfter m userId (.act pid (.hashSet (.cargoDigestPending m userId) n₀) (.ok ()) :: tr)
      { s with redis := s.redis.hashSet s.clock (.cargoDigestPending m userId) n₀ } := by
  have hnext : stageOf m userId (.act pid (.hashSet (.cargoDigestPending m userId) n₀) (.ok ()) :: tr)
      pid = .put (n₀ :: (stageOf m userId tr pid).ids) := stageOf_self.trans (if_pos rfl)
  have hidle : Stage.toRead (stageOf m userId tr pid) = false := by
    rcases hstage with h | ⟨ids, h⟩ <;> rw [h] <;> rfl
  have hfields : (s.redis.hashSet s.clock (.cargoDigestPending m userId) n₀).fields
      (.cargoDigestPending m userId) =
        if n₀ ∈ s.redis.fields (.cargoDigestPending m userId)
        then s.redis.fields (.cargoDigestPending m userId)
        else s.redis.fields (.cargoDigestPending m userId) ++ [n₀] := by
    rw [← hash_of_unexpired hunexpired]
    exact fields_withHash.trans (if_pos rfl)
  have hhands : ∀ {n}, ¬InHands m userId tr n → ¬InHands m userId
      (.act pid (.hashSet (.cargoDigestPending m userId) n₀) (.ok ()) :: tr) n := by
    intro n hn
    apply not_inHands hn
    intro ids hids
    rw [hnext] at hids
    cases hids
  constructor
  · intro hf
    exact h.flag_other hf hidle
  · intro n hunread hput
    show n ∈ (s.redis.hashSet s.clock (.cargoDigestPending m userId) n₀).fields _ ∧ _
    rw [hfields]
    by_cases hn : n₀ = n
    · subst hn
      refine ⟨?_, hhands fun hin => hput (.inl ⟨by simp [puts], hin⟩), .inr ⟨pid, .inr ?_⟩⟩
      · split
        · assumption
        · simp
      · rw [hnext]
        simp [Stage.ids]
    · obtain ⟨_, hold, hnot⟩ := unread_before (by simp [puts, hn]) hunread hput
      obtain ⟨hin, hfree, hsome⟩ := h.held n hold hnot
      refine ⟨?_, hhands hfree, expected_other hsome (fun hq => hq) hidle fun hids => ?_⟩
      · split
        · exact hin
        · exact List.mem_append_left _ hin
      · rw [hnext]
        exact List.mem_cons_of_mem _ hids

/-- A call asks for the flag after it put its ids. -/
theorem LookedAfter.ask {ttl : ℕ} {ids : List ℕ} (h : LookedAfter m userId tr s)
    (hstage : stageOf m userId tr pid = .put ids) :
    LookedAfter m userId
      (.act pid (.setIfAbsent (.cargoDigestScheduled m userId) ttl)
        (exec w (.setIfAbsent (.cargoDigestScheduled m userId) ttl) s).1 :: tr)
      (exec w (.setIfAbsent (.cargoDigestScheduled m userId) ttl) s).2 := by
  have hidle : Stage.toRead (stageOf m userId tr pid) = false := by
    rw [hstage]
    rfl
  by_cases hlive : s.redis.live s.clock (.cargoDigestScheduled m userId) = true
  · -- the flag was set: who set it queues the job
    have hexec : exec w (.setIfAbsent (.cargoDigestScheduled m userId) ttl) s = (.ok false, s) :=
      if_pos hlive
    rw [hexec]
    have hnext : stageOf m userId (.act pid (.setIfAbsent (.cargoDigestScheduled m userId) ttl)
        (.ok false) :: tr) pid = .free := by
      rw [stageOf_self]
      show (if _ then _ else _) = _
      rw [if_pos rfl]
      rfl
    have hflag := h.flag_other (c := .setIfAbsent (.cargoDigestScheduled m userId) ttl)
      (r := .ok false) hlive hidle
    refine ⟨fun _ => hflag, fun n hunread hput => ?_⟩
    obtain ⟨_, hold, hnot⟩ := unread_before rfl hunread hput
    obtain ⟨hin, hfree, _⟩ := h.held n hold hnot
    refine ⟨hin, not_inHands hfree ?_, ?_⟩
    · intro ids hids
      rw [hnext] at hids
      cases hids
    · rcases hflag with hq | ⟨x, hx⟩
      · exact .inl hq
      · refine .inr ⟨x, .inl ?_⟩
        rcases hx with hx | hx <;> rw [hx] <;> rfl
  · have hexec : exec w (.setIfAbsent (.cargoDigestScheduled m userId) ttl) s =
        (.ok true, { s with redis := s.redis.set s.clock (.cargoDigestScheduled m userId) ttl }) :=
      if_neg hlive
    rw [hexec]
    have hnext : stageOf m userId (.act pid (.setIfAbsent (.cargoDigestScheduled m userId) ttl)
        (.ok true) :: tr) pid = .owes := by
      rw [stageOf_self]
      show (if _ then _ else _) = _
      rw [if_pos rfl]
      rfl
    refine ⟨fun _ => .inr ⟨pid, .inl hnext⟩, fun n hunread hput => ?_⟩
    obtain ⟨_, hold, hnot⟩ := unread_before rfl hunread hput
    obtain ⟨hin, hfree, _⟩ := h.held n hold hnot
    refine ⟨hin, not_inHands hfree ?_, .inr ⟨pid, .inl ?_⟩⟩
    · intro ids hids
      rw [hnext] at hids
      cases hids
    · rw [hnext]
      rfl

/-- A summary clears the flag, and is to read the hash. -/
theorem LookedAfter.clear (h : LookedAfter m userId tr s) :
    LookedAfter m userId (.act pid (.delete (.cargoDigestScheduled m userId)) (.ok ()) :: tr)
      { s with redis := s.redis.delete (.cargoDigestScheduled m userId) } := by
  have hnext : stageOf m userId (.act pid (.delete (.cargoDigestScheduled m userId)) (.ok ()) :: tr)
      pid = .cleared := stageOf_self.trans (if_pos rfl)
  constructor
  · intro hf
    exact absurd rfl (live_of_delete hf).1
  · intro n hunread hput
    obtain ⟨_, hold, hnot⟩ := unread_before rfl hunread hput
    obtain ⟨hin, hfree, _⟩ := h.held n hold hnot
    refine ⟨hin, not_inHands hfree ?_, .inr ⟨pid, .inl ?_⟩⟩
    · intro ids hids
      rw [hnext] at hids
      cases hids
    · rw [hnext]
      rfl

/-- A summary reads the hash: every id it held is read. -/
theorem LookedAfter.read (h : LookedAfter m userId tr s) (hunexpired : Unexpired m userId s)
    (hstage : stageOf m userId tr pid = .cleared) :
    LookedAfter m userId (.act pid (.hashGetAll (.cargoDigestPending m userId))
      (.ok (s.redis.hash s.clock (.cargoDigestPending m userId))) :: tr) s := by
  constructor
  · intro hf
    rcases h.flag hf with hq | ⟨x, hx⟩
    · exact .inl hq
    · have hne : pid ≠ x := by
        rintro rfl
        rw [hstage] at hx
        rcases hx with hx | hx <;> cases hx
      rw [← stageOf_other hne] at hx
      exact .inr ⟨x, hx⟩
  · intro n hunread hput
    obtain ⟨hread, hold, hnot⟩ := unread_before rfl hunread hput
    obtain ⟨hin, _, _⟩ := h.held n hold hnot
    rw [← hash_of_unexpired hunexpired] at hin
    simp [reads, hin] at hread

/-- A summary takes out what it read. -/
theorem LookedAfter.take {ids : List ℕ} (h : LookedAfter m userId tr s)
    (hunexpired : Unexpired m userId s) (hstage : stageOf m userId tr pid = .took ids) :
    LookedAfter m userId (.act pid (.hashDelete (.cargoDigestPending m userId) ids) (.ok ()) :: tr)
      { s with redis := s.redis.hashDelete s.clock (.cargoDigestPending m userId) ids } := by
  have hnext : stageOf m userId (.act pid (.hashDelete (.cargoDigestPending m userId) ids) (.ok ()) ::
      tr) pid = .free := stageOf_self.trans (if_pos rfl)
  have hidle : Stage.toRead (stageOf m userId tr pid) = false := by
    rw [hstage]
    rfl
  have hfields : (s.redis.hashDelete s.clock (.cargoDigestPending m userId) ids).fields
      (.cargoDigestPending m userId) =
        (s.redis.fields (.cargoDigestPending m userId)).filter (· ∉ ids) := by
    rw [← hash_of_unexpired hunexpired]
    exact fields_withHash.trans (if_pos rfl)
  constructor
  · intro hf
    exact h.flag_other hf hidle
  · intro n hunread hput
    obtain ⟨_, hold, hnot⟩ := unread_before rfl hunread hput
    obtain ⟨hin, hfree, hsome⟩ := h.held n hold hnot
    have hn : n ∉ ids := fun hn => hfree ⟨pid, ids, hstage, hn⟩
    refine ⟨?_, not_inHands hfree ?_, expected_other hsome (fun hq => hq) hidle ?_⟩
    · show n ∈ (s.redis.hashDelete s.clock (.cargoDigestPending m userId) ids).fields _
      rw [hfields]
      exact List.mem_filter.mpr ⟨hin, by simpa using hn⟩
    · intro ids hids
      rw [hnext] at hids
      cases hids
    · intro hids
      rw [hstage] at hids
      cases hids

/-- A job of the summary is queued. -/
theorem LookedAfter.queue {job : DeliveryJob} {r : Except Fault Unit} {x : QueuedJob} {delay : ℕ}
    (h : LookedAfter m userId tr s) (hjob : isDigest m userId x.job = true)
    (hnext : stageOf m userId (.act pid (.publish job delay) r :: tr) pid = .free) :
    LookedAfter m userId (.act pid (.publish job delay) r :: tr)
      { s with queue := s.queue ++ [x] } := by
  have hqueued : Queued m userId { s with queue := s.queue ++ [x] } := ⟨x, by simp, hjob⟩
  refine ⟨fun _ => .inl hqueued, fun n hunread hput => ?_⟩
  obtain ⟨_, hold, hnot⟩ := unread_before rfl hunread hput
  obtain ⟨hin, hfree, _⟩ := h.held n hold hnot
  refine ⟨hin, not_inHands hfree ?_, .inl hqueued⟩
  intro ids hids
  rw [hnext] at hids
  cases hids

/-- A job is taken off the queue: the summary's is in hand, another one leaves it there. -/
theorem LookedAfter.receive {x : QueuedJob} {y : Messenger} (h : LookedAfter m userId tr s)
    (hstage : stageOf m userId tr pid = .free) :
    LookedAfter m userId (.act pid (.receive y) (.ok (some x.job)) :: tr)
      { s with queue := s.queue.erase x } := by
  have hidle : Stage.toRead (stageOf m userId tr pid) = false := by
    rw [hstage]
    rfl
  by_cases hjob : isDigest m userId x.job = true
  · have hnext : stageOf m userId (.act pid (.receive y) (.ok (some x.job)) :: tr) pid = .due :=
      stageOf_self.trans (if_pos hjob)
    refine ⟨fun _ => .inr ⟨pid, .inr hnext⟩, fun n hunread hput => ?_⟩
    obtain ⟨_, hold, hnot⟩ := unread_before rfl hunread hput
    obtain ⟨hin, hfree, _⟩ := h.held n hold hnot
    refine ⟨hin, not_inHands hfree ?_, .inr ⟨pid, .inl ?_⟩⟩
    · intro ids hids
      rw [hnext] at hids
      cases hids
    · rw [hnext]
      rfl
  · have hnext : stageOf m userId (.act pid (.receive y) (.ok (some x.job)) :: tr) pid = .free := by
      rw [stageOf_self, ← hstage]
      exact if_neg hjob
    have hqueue : Queued m userId s → Queued m userId { s with queue := s.queue.erase x } := by
      rintro ⟨z, hz, hzjob⟩
      refine ⟨z, (List.mem_erase_of_ne ?_).mpr hz, hzjob⟩
      rintro rfl
      exact hjob hzjob
    constructor
    · intro hf
      exact (h.flag_other hf hidle).imp_left hqueue
    · intro n hunread hput
      obtain ⟨_, hold, hnot⟩ := unread_before rfl hunread hput
      obtain ⟨hin, hfree, hsome⟩ := h.held n hold hnot
      refine ⟨hin, not_inHands hfree ?_, expected_other hsome hqueue hidle ?_⟩
      · intro ids hids
        rw [hnext] at hids
        cases hids
      · intro hids
        rw [hstage] at hids
        cases hids

end Commands

/-- **One command keeps the flag and the ids looked after.** -/
theorem LookedAfter.act {w : World} (h : LookedAfter m userId tr s)
    (hallowed : (digestMonitor m userId).allowed (stageOf m userId tr pid) c)
    (hunexpired : Unexpired m userId s)
    (hpublished : unpublished (.act pid c (exec w c s).1) = false) :
    LookedAfter m userId (.act pid c (exec w c s).1 :: tr) (exec w c s).2 := by
  by_cases hconcerns : concerns m userId c = false
  · obtain ⟨hfields, hflag, hqueue⟩ := exec_unconcerned (w := w) (s := s) hconcerns
    refine h.same (fun x => ?_) (fun n => ?_) hfields hflag hqueue
    · by_cases hx : pid = x
      · subst hx
        rw [stageOf_self]
        exact (unconcerned_seen hconcerns _).2 _
      · exact stageOf_other hx
    · cases c with
      | hashSet key x =>
          have hkey : key ≠ .cargoDigestPending m userId := of_decide_eq_false hconcerns
          show decide (key = .cargoDigestPending m userId ∧ x = n) = false
          exact decide_eq_false fun hk => hkey hk.1
      | _ => rfl
  · rw [Bool.not_eq_false] at hconcerns
    cases c with
    | hashSet key n₀ =>
        obtain rfl : key = .cargoDigestPending m userId := of_decide_eq_true hconcerns
        exact h.put hunexpired (hallowed rfl)
    | setIfAbsent key ttl =>
        obtain rfl : key = .cargoDigestScheduled m userId := of_decide_eq_true hconcerns
        obtain ⟨ids, hids⟩ := hallowed rfl
        exact h.ask hids
    | delete key =>
        obtain rfl : key = .cargoDigestScheduled m userId := of_decide_eq_true hconcerns
        exact h.clear
    | hashGetAll key =>
        obtain rfl : key = .cargoDigestPending m userId := of_decide_eq_true hconcerns
        exact h.read hunexpired (hallowed rfl)
    | hashDelete key ids =>
        obtain rfl : key = .cargoDigestPending m userId := of_decide_eq_true hconcerns
        exact h.take hunexpired (hallowed rfl)
    | publish job delay =>
        cases hw : w.published with
        | error e => simp [exec, hw, unpublished] at hpublished
        | ok a =>
            have hexec : exec w (.publish job delay) s =
                (.ok (), { s with queue := s.queue ++ [⟨job, s.clock + delay⟩] }) := by
              simp only [exec, hw]
            rw [hexec]
            exact h.queue hconcerns (stageOf_self.trans (if_pos hconcerns))
    | receive y =>
        cases hx : (s.available y)[w.turn]? with
        | some x =>
            have hexec : exec w (.receive y) s =
                (.ok (some x.job), { s with queue := s.queue.erase x }) := by
              simp only [exec, hx]
            rw [hexec]
            exact h.receive hallowed
        | none =>
            have hexec : exec w (.receive y) s = (.ok none, s) := by
              simp only [exec, hx]
            rw [hexec]
            refine h.same (fun x => ?_) (fun _ => rfl) rfl (fun hf => hf) (fun hq => hq)
            by_cases hpid : pid = x
            · subst hpid
              rw [stageOf_self]
              rfl
            · exact stageOf_other hpid
    | set key ttl => exact absurd (of_decide_eq_true hconcerns) hallowed
    | _ => cases hconcerns

end Step

/-! ### Whole runs -/

section Runs

variable {m : Messenger} {userId window : ℕ} {tr : List (Event Resp)} {s₀ : Store}
  {b : Conf Resp Fault Store}

theorem answers_exec {pid : ℕ} (w : World) (c : Cmd) (s : Store)
    (hpublished : unpublished (.act pid c (exec w c s).1) = false) : Answers c (exec w c s).1 := by
  have hresponds := responds_exec w c s
  cases hr : (exec w c s).1 with
  | ok a => trivial
  | error e =>
      rw [hr] at hresponds hpublished
      refine ⟨hresponds, ?_⟩
      rintro job delay rfl
      cases hpublished

/-- Every call left is accepted from where it stands. -/
theorem accepted_run (h : (digestMachine window).Run (Works m userId) (.start s₀) tr b) :
    (∀ pid, b.pool.length ≤ pid → stageOf m userId tr pid = .free) ∧
      ∀ pid p, b.pool[pid]? = some p → Accepts (digestMonitor m userId) p (stageOf m userId tr pid)
        (fun _ q => q = .free) := by
  refine Run.accepted ?_ ?_ h
  · intro call s p s' hb
    obtain ⟨rfl, _⟩ := Prod.mk.inj (Option.some.inj hb)
    exact accepts_digestProgram call
  · intro tr b pid w c r s' q hx hok
    obtain ⟨rfl, _⟩ : (exec w c b.store).1 = r ∧ (exec w c b.store).2 = s' :=
      Prod.mk.inj (Option.some.inj hx)
    exact answers_exec w c b.store hok.1

/-- A call that has ended owes nothing. -/
theorem inProgress_of_stage {pid : ℕ}
    (h : (digestMachine window).Run (Works m userId) (.start s₀) tr b)
    (hstage : stageOf m userId tr pid ≠ .free) : InProgress b pid := by
  obtain ⟨hidle, hin⟩ := accepted_run h
  cases hp : b.pool[pid]? with
  | none => exact absurd (hidle pid (List.getElem?_eq_none_iff.mp hp)) hstage
  | some p =>
      refine ⟨p, hp, ?_⟩
      have hacc := hin pid p hp
      cases p with
      | call c k => rfl
      | ret a => exact absurd hacc hstage
      | throw e => exact absurd hacc hstage

theorem lookedAfter_run (hredis : s₀.redis = .empty)
    (h : (digestMachine window).Run (Works m userId) (.start s₀) tr b) :
    LookedAfter m userId tr b.store := by
  refine Machine.Run.invariant (fun tr b => LookedAfter m userId tr b.store) ?_ ?_ h
  · constructor
    · intro hf
      unfold Flagged at hf
      rw [show (Conf.start s₀ : Conf Resp Fault Store).store.redis = .empty from hredis] at hf
      cases hf
    · intro n hunread
      cases hunread
  · intro tr b l e c hrun ih hs hok
    cases l with
    | outside o =>
        obtain ⟨s, ho, rfl, rfl⟩ := Machine.step_outside hs
        obtain rfl := Option.some.inj ho
        refine ih.same (fun _ => rfl) (fun _ => rfl) ?_ ?_ ?_
        · cases o <;> rfl
        · cases o with
          | listing l => exact fun hf => hf
          | wait ms =>
              intro hf
              unfold Flagged Redis.live at hf ⊢
              rw [Option.any_eq_true] at hf ⊢
              obtain ⟨time, ht, hlater⟩ := hf
              refine ⟨time, ht, ?_⟩
              simp only [decide_eq_true_eq] at hlater ⊢
              exact Nat.lt_of_le_of_lt (Nat.le_add_right _ ms) hlater
        · cases o <;> exact fun hq => hq
    | start call =>
        obtain ⟨p, s, hb, rfl, rfl⟩ := Machine.step_start hs
        obtain ⟨_, rfl⟩ := Prod.mk.inj (Option.some.inj hb)
        exact ih.same (fun _ => rfl) (fun _ => rfl) rfl (fun hf => hf) (fun hq => hq)
    | act pid w =>
        obtain ⟨cmd, k, r, s, hcall, hx, rfl, rfl⟩ := Machine.step_act hs
        obtain ⟨rfl, rfl⟩ : (exec w cmd b.store).1 = r ∧ (exec w cmd b.store).2 = s :=
          Prod.mk.inj (Option.some.inj hx)
        exact ih.act ((accepted_run hrun).2 pid _ hcall).1 hok.2 hok.1

/-- **No held load is forgotten.**  In every interleaving, an id put into the hash and not read since
is still there while a job of the summary is queued or a call in progress is to clear the flag, to
read the hash, to queue the job it owes, or to ask for the flag after putting this id; unless, when
it was put, a summary that had read it was about to take it out. -/
theorem held_not_forgotten (hredis : s₀.redis = .empty)
    (h : (digestMachine window).Run (Works m userId) (.start s₀) tr b)
    (hunexpired : Unexpired m userId b.store) {n : ℕ} (hunread : Unread m userId tr n) :
    (n ∈ b.store.redis.hash b.store.clock (.cargoDigestPending m userId) ∧
      Expected m userId tr b n) ∨ PutInHands m userId tr n := by
  by_cases hput : PutInHands m userId tr n
  · exact .inr hput
  · obtain ⟨hin, _, hsome⟩ := (lookedAfter_run hredis h).held n hunread hput
    rw [hash_of_unexpired hunexpired]
    refine .inl ⟨hin, hsome.imp_right ?_⟩
    rintro ⟨pid, hpid⟩
    refine ⟨pid, ?_, hpid⟩
    exact inProgress_of_stage h fun hfree => by simp [hfree, Stage.toRead, Stage.ids] at hpid

end Runs

/-! ### Two loads for one driver -/

/-- A notice of driver 7, pending everywhere. -/
def noticeOf (id : ℕ) : LoadedNotice where
  id := id
  userId := 7
  listingId := 1
  createdAt := 100000000
  columns _ := ⟨.pending, 0, none, none, none⟩
  listing := none

/-- A call takes its next steps. -/
def goes (pid steps : ℕ) : List (digestMachine 120).Label := List.replicate steps (.act pid onBale)

/-- The first load goes alone and opens the window; the second is held and gets the flag. -/
def secondHeld : List (digestMachine 120).Label :=
  [[.start (.hold (noticeOf 1) .bale)], goes 0 1, [.start (.hold (noticeOf 2) .bale)],
    goes 1 4].flatten

theorem held_not_forgotten_second :
    ∃ tr b, (digestMachine 120).Run (Works .bale 7) (.start oneOpenLoad) tr b ∧
      Unread .bale 7 tr 2 ∧
      ((2 ∈ b.store.redis.hash b.store.clock (.cargoDigestPending .bale 7) ∧
        Expected .bale 7 tr b 2) ∨ PutInHands .bale 7 tr 2) := by
  have hplay : ((digestMachine 120).play (Works .bale 7) [] (.start oneOpenLoad) secondHeld).any
      (fun x => Unexpired .bale 7 x.2.store ∧ Unread .bale 7 x.1 2) = true := by
    decide
  simp only [Option.any_eq_true, decide_eq_true_eq] at hplay
  obtain ⟨⟨tr, b⟩, hp, hunexpired, hunread⟩ := hplay
  have hrun := Machine.play_run .nil hp
  exact ⟨tr, b, hrun, hunread, held_not_forgotten rfl hrun hunexpired hunread⟩

/-- With the flag set and the job not queued yet, nobody else is to read the second load. -/
theorem flag_set_job_not_queued :
    ¬∀ tr b n, (digestMachine 120).Run (Works .bale 7) (.start oneOpenLoad) tr b →
      Unexpired .bale 7 b.store → Unread .bale 7 tr n →
      n ∈ b.store.redis.hash b.store.clock (.cargoDigestPending .bale 7) ∧
        (Queued .bale 7 b.store ∨ ∃ pid, InProgress b pid ∧
          (stageOf .bale 7 tr pid = .due ∨ stageOf .bale 7 tr pid = .cleared ∨
            n ∈ (stageOf .bale 7 tr pid).ids)) := by
  intro hclaim
  have hplay : ((digestMachine 120).play (Works .bale 7) [] (.start oneOpenLoad) secondHeld).any
      (fun x : List (Event Resp) × Conf Resp Fault Store => Unexpired .bale 7 x.2.store ∧
        Unread .bale 7 x.1 2 ∧ ¬Queued .bale 7 x.2.store ∧ ∀ pid ∈ List.range x.2.pool.length,
          ¬(stageOf .bale 7 x.1 pid = .due ∨ stageOf .bale 7 x.1 pid = .cleared ∨
            2 ∈ (stageOf .bale 7 x.1 pid).ids)) = true := by
    decide
  simp only [Option.any_eq_true, decide_eq_true_eq] at hplay
  obtain ⟨⟨tr, b⟩, hp, hunexpired, hunread, hnone, hnobody⟩ := hplay
  obtain ⟨_, hq | ⟨pid, ⟨p, hpid, _⟩, hstage⟩⟩ :=
    hclaim tr b 2 (Machine.play_run .nil hp) hunexpired hunread
  · exact hnone hq
  · exact hnobody pid (List.mem_range.mpr (List.getElem?_eq_some_iff.mp hpid).1) hstage

/-- A summary has read the second load; held once more, it is taken out with the others. -/
def heldAgain : List (digestMachine 120).Label :=
  [secondHeld, goes 1 4, [.start (.handle { id := 7, messenger := .bale, kind := .digest })], goes 2 3,
    [.start (.hold (noticeOf 2) .bale)], goes 3 2, goes 2 1].flatten

theorem put_again_in_hands :
    ¬∀ tr b n, (digestMachine 120).Run (Works .bale 7) (.start oneOpenLoad) tr b →
      Unexpired .bale 7 b.store → Unread .bale 7 tr n →
      n ∈ b.store.redis.hash b.store.clock (.cargoDigestPending .bale 7) := by
  intro hclaim
  have hplay : ((digestMachine 120).play (Works .bale 7) [] (.start oneOpenLoad) heldAgain).any
      (fun x => Unexpired .bale 7 x.2.store ∧ Unread .bale 7 x.1 2 ∧
        2 ∉ x.2.store.redis.hash x.2.store.clock (.cargoDigestPending .bale 7)) = true := by
    decide
  simp only [Option.any_eq_true, decide_eq_true_eq] at hplay
  obtain ⟨⟨tr, b⟩, hp, hunexpired, hunread, hgone⟩ := hplay
  exact hgone (hclaim tr b 2 (Machine.play_run .nil hp) hunexpired hunread)

end TransportBackend.NoticeHeld
