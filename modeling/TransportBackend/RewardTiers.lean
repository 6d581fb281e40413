import TransportBackend.LockHolders
import TransportBackend.MonitoredProgram
import TransportBackend.PaymentOnce
import TransportBackend.SubscriptionPeriods

/-!
# Each reward tier once, back to back

Any number of calls of `grantEarned` and `approveOrder`, statement by statement, while the tiers
change.  The paid total is read before any lock; whether the tier was given and when it starts are
read under the user's advisory lock, and the bonus commits before the lock is free.

* `sumTomans_le` — the joined sum counts no order twice, so it is what the user's orders add up to;
* `le_of_binary64` — a total that passes a tier as a JavaScript number passes it;
* `Stage`, `stageMonitor` — which lock a call holds and what it has read;
* `OrderKept`, `BonusKept` — one approval an order, one transaction a user, and a start that no bonus
  outlasts while the lock is held;
* `tiers_once_back_to_back` — **every bonus was earned when its total was read, starts after
  everything committed when its start was computed, and overlaps no other bonus**.
-/

namespace TransportBackend.RewardTiers

open TransportBackend.AtomicProgram
open TransportBackend.AtomicProgram.Prog
open TransportBackend.Binary64
open TransportBackend.InterleavedRun
open TransportBackend.KeyedTable
open TransportBackend.LockHolders
open TransportBackend.MonitoredProgram
open TransportBackend.PeriodChain
open TransportBackend.SubscriptionStore
open TransportBackend.SubscriptionService
open TransportBackend.SubscriptionEffect
open TransportBackend.SubscriptionPeriods
open TransportBackend.PaymentOnce

/-! ### The paid total -/

/-- What the approved orders of a user add up to, in tomans. -/
def approvedTomans (s : Store) (userId : ℕ) : ℚ :=
  ((s.orders.rows.filter fun o => o.status = .approved &&
    s.subscriptions.rows.any fun b => b.orderId = o.id && b.userId = userId).map
      SubscriptionOrder.tomans).sum

/-- No order has two subscriptions. -/
def SubscribedOnce (s : Store) : Prop :=
  ∀ b ∈ s.subscriptions.rows, ∀ b' ∈ s.subscriptions.rows, b.orderId = b'.orderId → b = b'

theorem tomans_nonneg (o : SubscriptionOrder) : 0 ≤ o.tomans := by
  unfold SubscriptionOrder.tomans
  split_ifs <;> positivity

/-- The order of a subscription, while it is approved. -/
def approvedOrderOf (s : Store) (b : Subscription) : Option SubscriptionOrder :=
  (s.orders.get b.orderId).filter fun o => o.status = .approved

theorem tomansOf_eq (s : Store) (b : Subscription) :
    s.tomansOf b.orderId = ((approvedOrderOf s b).map SubscriptionOrder.tomans).getD 0 := by
  unfold Store.tomansOf approvedOrderOf
  cases s.orders.get b.orderId with
  | none => rfl
  | some o => by_cases h : o.status = .approved <;> simp [h, Option.filter]

theorem sum_getD_eq (s : Store) (bs : List Subscription) :
    (bs.map fun b => s.tomansOf b.orderId).sum =
      ((bs.filterMap (approvedOrderOf s)).map SubscriptionOrder.tomans).sum := by
  induction bs with
  | nil => rfl
  | cons b bs ih =>
      rw [List.map_cons, List.sum_cons, ih, tomansOf_eq]
      cases h : approvedOrderOf s b with
      | none => simp [h]
      | some o => simp [h]

theorem sum_le_of_nodup {l l' : List SubscriptionOrder} (hnodup : l.Nodup) (hsub : l ⊆ l') :
    (l.map SubscriptionOrder.tomans).sum ≤ (l'.map SubscriptionOrder.tomans).sum := by
  obtain ⟨m, hm, hsublist⟩ := List.subperm_of_subset hnodup hsub
  calc (l.map SubscriptionOrder.tomans).sum = (m.map SubscriptionOrder.tomans).sum :=
        (hm.map _).sum_eq.symm
    _ ≤ (l'.map SubscriptionOrder.tomans).sum := by
        apply (hsublist.map _).sum_le_sum
        intro x hx
        obtain ⟨o, _, rfl⟩ := List.mem_map.mp hx
        exact tomans_nonneg o

theorem approvedOrderOf_some {s : Store} {b : Subscription} {o : SubscriptionOrder}
    (h : approvedOrderOf s b = some o) :
    s.orders.get b.orderId = some o ∧ o.status = .approved := by
  simpa [approvedOrderOf, Option.filter_eq_some_iff] using h

/-- **The joined sum counts no order twice.** -/
theorem sumTomans_le {s : Store} (h : SubscribedOnce s) (userId : ℕ) :
    s.sumTomans userId ≤ approvedTomans s userId := by
  rw [Store.sumTomans, sum_getD_eq]
  apply sum_le_of_nodup
  · have hrows : (s.subscriptions.rows.filter fun b => b.userId = userId).Nodup :=
      (List.Nodup.of_map _ s.subscriptions.nodup).filter _
    have hinj : ∀ b ∈ s.subscriptions.rows, ∀ b' ∈ s.subscriptions.rows, ∀ o,
        approvedOrderOf s b = some o → approvedOrderOf s b' = some o → b = b' := by
      intro b hb b' hb' o ho ho'
      apply h b hb b' hb'
      rw [← Table.key_of_get (approvedOrderOf_some ho).1, Table.key_of_get (approvedOrderOf_some ho').1]
    have hmem : ∀ b ∈ s.subscriptions.rows.filter (fun b => b.userId = userId),
        b ∈ s.subscriptions.rows := fun b hb => (List.mem_filter.mp hb).1
    generalize s.subscriptions.rows.filter (fun b => b.userId = userId) = bs at hrows hmem
    induction bs with
    | nil => exact List.nodup_nil
    | cons b bs ih =>
        obtain ⟨hnot, hrest⟩ := List.nodup_cons.mp hrows
        have ih' := ih hrest fun c hc => hmem c (List.mem_cons_of_mem _ hc)
        cases ho : approvedOrderOf s b with
        | none =>
            rw [List.filterMap_cons, ho]
            exact ih'
        | some o =>
            rw [List.filterMap_cons, ho]
            refine List.nodup_cons.mpr ⟨?_, ih'⟩
            intro hin
            obtain ⟨c, hc, hco⟩ := List.mem_filterMap.mp hin
            have hbc := hinj b (hmem b List.mem_cons_self) c (hmem c (List.mem_cons_of_mem _ hc)) o ho hco
            exact hnot (hbc ▸ hc)
  · intro o ho
    obtain ⟨b, hb, hbo⟩ := List.mem_filterMap.mp ho
    obtain ⟨hget, happroved⟩ := approvedOrderOf_some hbo
    obtain ⟨hrow, huser⟩ := List.mem_filter.mp hb
    have hid : o.id = b.orderId := Table.key_of_get hget
    rw [List.mem_filter, Bool.and_eq_true, List.any_eq_true]
    refine ⟨Table.mem_of_get hget, decide_eq_true happroved, b, hrow, ?_⟩
    rw [Bool.and_eq_true]
    exact ⟨decide_eq_true hid.symm, huser⟩

/-- The sum has at most one decimal. -/
theorem exists_tenths (s : Store) (userId : ℕ) : ∃ n : ℕ, s.sumTomans userId = n / 10 := by
  have hone : ∀ o : SubscriptionOrder, ∃ n : ℕ, o.tomans = n / 10 := by
    intro o
    unfold SubscriptionOrder.tomans
    split_ifs
    · exact ⟨10 * o.amount, by push_cast; ring⟩
    · exact ⟨o.amount, rfl⟩
    · exact ⟨0, by norm_num⟩
  rw [Store.sumTomans, sum_getD_eq]
  generalize (s.subscriptions.rows.filter fun b => b.userId = userId).filterMap (approvedOrderOf s) = os
  induction os with
  | nil => exact ⟨0, by norm_num⟩
  | cons o os ih =>
      obtain ⟨n, hn⟩ := hone o
      obtain ⟨m, hm⟩ := ih
      refine ⟨n + m, ?_⟩
      rw [List.map_cons, List.sum_cons, hn, hm]
      push_cast
      ring

/-- The largest tier the admin may enter. -/
def maxTier : ℕ := 1000000000000

/-- **A total that passes a tier as a JavaScript number passes it.** -/
theorem le_of_binary64 {m n : ℕ} (hm : m ≤ maxTier) (h : (m : ℚ) ≤ binary64 ((n : ℚ) / 10)) :
    (m : ℚ) ≤ (n : ℚ) / 10 := by
  by_contra hlt
  rw [not_le, div_lt_iff₀ (by norm_num)] at hlt
  have hnat : n + 1 ≤ m * 10 := by
    have : n < m * 10 := by exact_mod_cast hlt
    omega
  have hq : (n : ℚ) / 10 ≤ m - 1 / 10 := by
    rw [div_le_iff₀ (by norm_num)]
    have : ((n + 1 : ℕ) : ℚ) ≤ ((m * 10 : ℕ) : ℚ) := by exact_mod_cast hnat
    push_cast at this
    linarith
  have hm' : (m : ℚ) ≤ 1000000000000 := by exact_mod_cast hm
  rcases Nat.eq_zero_or_pos n with rfl | hpos
  · have hzero : binary64 ((0 : ℕ) / 10 : ℚ) = 0 := by norm_num [binary64, roundHalfEven]
    rw [hzero] at h
    have hmpos : (1 : ℚ) / 10 ≤ m := by
      have := hq
      push_cast at this
      linarith
    linarith
  · have hpos' : (0 : ℚ) < (n : ℚ) / 10 := by positivity
    have herr := (abs_le.mp (abs_binary64_sub_le _ hpos')).2
    have hsmall : (n : ℚ) / 10 / 2 ^ 53 < 1 / 10 := by
      rw [div_lt_iff₀ (by positivity)]
      norm_num
      linarith
    linarith

/-! ### The tiers -/

/-- `DriverRewardDto`: a tier as the admin may enter it. -/
structure DriverRewardDto where
  minTomans : ℕ
  freeDays : ℕ
  minTomans_pos : 1 ≤ minTomans
  minTomans_le : minTomans ≤ maxTier
  freeDays_pos : 1 ≤ freeDays
  freeDays_le : freeDays ≤ 365

/-- The tier as the policy holds it. -/
def DriverRewardDto.raw (d : DriverRewardDto) : RawReward := ⟨some d.minTomans, some d.freeDays⟩

theorem positiveInteger_eq {n m : ℕ} (h : positiveInteger (some (n : ℚ)) = some m) : m = n := by
  simp only [positiveInteger, Option.bind_some] at h
  split at h
  · rw [← Option.some.inj h]
    simp
  · cases h

theorem mem_foldl_put {tiers : List DriverReward} {t : Table DriverReward.minTomans}
    {d : DriverReward} (h : d ∈ (tiers.foldl Table.put t).rows) : d ∈ tiers ∨ d ∈ t.rows := by
  induction tiers generalizing t with
  | nil => exact .inr h
  | cons e tiers ih =>
      rcases ih h with hd | hd
      · exact .inl (List.mem_cons_of_mem _ hd)
      · rcases Table.mem_put.mp hd with rfl | ⟨_, hd⟩
        · exact .inl List.mem_cons_self
        · exact .inr hd

/-- Normalizing keeps the bound the admin's form sets. -/
theorem normalizeRewards_le {dtos : List DriverRewardDto} {tier : DriverReward}
    (h : tier ∈ normalizeRewards (dtos.map DriverRewardDto.raw)) : tier.minTomans ≤ maxTier := by
  have hrows := List.mem_mergeSort.mp h
  rcases mem_foldl_put hrows with hmem | hmem
  · obtain ⟨raw, hraw, htier⟩ := List.mem_filterMap.mp hmem
    obtain ⟨d, _, rfl⟩ := List.mem_map.mp hraw
    simp only [RawReward.tier, DriverRewardDto.raw, Option.bind_eq_some_iff,
      Option.map_eq_some_iff] at htier
    obtain ⟨m, hm, f, _, rfl⟩ := htier
    rw [positiveInteger_eq hm]
    exact d.minTomans_le
  · cases hmem

/-! ### The calls -/

/-- The calls that reward and approve. -/
inductive RewardCall where
  | grantEarned (userId : ℕ) (now : ℤ)
  | approveOrder (orderId receiptId adminUserId : ℕ)

/-- What a call runs. -/
def rewardProgram (zone : Zone) : RewardCall → Billing Unit
  | .grantEarned userId now => unanswered (grantEarned userId now)
  | .approveOrder orderId receiptId adminUserId =>
      unanswered (approveOrder zone orderId receiptId adminUserId)

/-- Any number of these calls on one store.  Every read of the policy may find other tiers; a
statement that waits for a lock is not executed. -/
def rewardMachine (zone : Zone) : Machine Resp SubscriptionError Store where
  Choice := List DriverRewardDto
  Outside := ℕ
  Call := RewardCall
  exec tiers c s :=
    if blocked c s then none else some (exec ⟨none, tiers.map DriverRewardDto.raw⟩ c s)
  outside passed s := some { s with clock := s.clock + passed }
  begin call s := some (rewardProgram zone call, s)

/-! ### Where a call stands -/

/-- The lock a call holds and what it has read. -/
inductive Stage where
  | idle
  | ordered (id : ℕ) (order : Option SubscriptionOrder)
  | summed (userId : ℕ) (tomans : ℚ)
  | locked (userId : ℕ) (tomans : ℚ)
  | free (userId : ℕ) (tomans : ℚ) (reason : BonusReason)
  | dated (userId : ℕ) (tomans : ℚ) (reason : BonusReason) (startAt : ℤ)

/-- The order whose row the call holds, as it found it. -/
def Stage.row : Stage → Option (ℕ × Option SubscriptionOrder)
  | .ordered id order => some (id, order)
  | _ => none

/-- The user whose advisory lock the call holds, and the start it has computed. -/
def Stage.grant : Stage → Option (ℕ × Option ℤ)
  | .locked u _ => some (u, none)
  | .free u _ _ => some (u, none)
  | .dated u _ _ startAt => some (u, some startAt)
  | _ => none

/-- The total the call has read. -/
def Stage.total : Stage → Option (ℕ × ℚ)
  | .summed u t => some (u, t)
  | .locked u t => some (u, t)
  | .free u t _ => some (u, t)
  | .dated u t _ _ => some (u, t)
  | _ => none

/-- The advisory lock, taken and given back. -/
def Stage.lock : Stage → Stage
  | .summed u t => .locked u t
  | q => q

def Stage.unlock : Stage → Stage
  | .locked u t => .summed u t
  | q => q

/-- The user has no bonus for this reason. -/
def Stage.without (reason : BonusReason) : Stage → Stage
  | .locked u t => .free u t reason
  | q => q

def Stage.start (startAt : ℤ) : Stage → Stage
  | .free u t reason => .dated u t reason startAt
  | q => q

/-- The bonus was inserted, or refused. -/
def Stage.commit (saved : Bool) : Stage → Stage
  | .dated u t _ _ => if saved then .summed u t else .locked u t
  | q => q

/-- Where a statement and its answer lead. -/
def stageNext (q : Stage) : (c : SubscriptionCmd) → Resp c → Stage
  | .lockOrder id, found => .ordered id (found.map Prod.fst)
  | .commitApproval _, saved => if saved.isSome then .idle else q
  | .rollback _, _ => .idle
  | .sumTomans u, tomans => .summed u tomans
  | .lockBonuses _, _ => q.lock
  | .findBonus _ reason, found => if found.isSome then q else q.without reason
  | .freeFrom _ _, startAt => q.start startAt
  | .commitBonus _, saved => q.commit saved
  | .unlockBonuses _, _ => q.unlock
  | _, _ => q

/-- What a call may issue where it stands. -/
def stageAllowed (q : Stage) : SubscriptionCmd → Prop
  | .lockOrder _ => q = .idle
  | .commitApproval a => ∃ id o, q = .ordered id (some o) ∧ o.status ≠ .approved ∧ a.order.id = id ∧
      a.order.status = .approved
  | .rollback id => ∃ o, q = .ordered id o
  | .sumTomans _ => q = .idle
  | .lockBonuses u => ∃ t, q = .summed u t
  | .findBonus u _ => ∃ t, q = .locked u t
  | .freeFrom u _ => ∃ t reason, q = .free u t reason
  | .commitBonus b => ∃ t m startAt, q = .dated b.userId t (.paid m) startAt ∧
      b.reason = .paid m ∧ b.startAt = startAt ∧ (m : ℚ) ≤ t
  | .unlockBonuses u => ∃ t, q = .locked u t
  | .saveWithOrder _ _ => False
  | .commitRejection _ => False
  | .claimForAnalysis _ => False
  | .releaseFailedAnalysis _ _ => False
  | .releaseStaleAnalyses _ _ => False
  | _ => True

/-- What the policy, the order's row and the sum may answer. -/
def stageAnswers (_ : Stage) : (c : SubscriptionCmd) → Resp c → Prop
  | .getDriverRewards, tiers => ∀ tier ∈ tiers, tier.minTomans ≤ maxTier
  | .lockOrder id, found => ∀ locked ∈ found, locked.1.id = id
  | .sumTomans _, tomans => ∃ n : ℕ, tomans = n / 10
  | _, _ => True

/-- The monitor of one call. -/
def stageMonitor : Monitor Resp Stage where
  allowed := stageAllowed
  answers := stageAnswers
  next := stageNext

/-! ### Every call keeps to it -/

section Accepts

variable {α : Type} {q : Stage}

theorem accepts_issue (c : SubscriptionCmd) {Q : Except SubscriptionError (Resp c) → Stage → Prop} :
    Accepts (α := no_index (Resp c)) stageMonitor (issue c) q Q ↔
      stageAllowed q c ∧ ∀ r, stageAnswers q c r → Q (.ok r) (stageNext q c r) := Iff.rfl

theorem unseen_of_looksUp {p : Billing α} (h : LooksUp p) : Unseen stageMonitor p := by
  apply keeps_of_within _ h
  intro c hc q
  cases c <;> first | exact hc.elim | exact ⟨trivial, fun _ _ => rfl⟩

/-- A transaction that throws gives the order's row back. -/
theorem accepts_transaction {orderId : ℕ} {body : Billing α}
    (h : Accepts stageMonitor body q
      (outcome (fun _ q' => q' = .idle) (fun _ q' => ∃ o, q' = .ordered orderId o))) :
    Accepts stageMonitor (transaction orderId body) q (fun _ q' => q' = .idle) := by
  rw [transaction, accepts_bind, accepts_attempt]
  apply accepts_mono h
  intro out q' hout
  cases out with
  | ok a => exact hout
  | error e => exact ⟨hout, fun _ _ => rfl⟩

theorem accepts_lockForApproval {id : ℕ}
    {Q : Except SubscriptionError (SubscriptionOrder × Option SubscriptionPlan) → Stage → Prop}
    (hE : ∀ e o, Q (.error e) (.ordered id o))
    (hQ : ∀ locked : SubscriptionOrder × Option SubscriptionPlan, locked.1.id = id →
      locked.1.status ≠ .approved → Q (.ok locked) (.ordered id (some locked.1))) :
    Accepts stageMonitor (lockForApproval id) .idle Q := by
  simp only [lockForApproval, accepts_bind, accepts_issue, accepts_orThrow, accepts_refuseIf,
    outcome_ok, outcome_error]
  refine ⟨rfl, fun found hfound => ⟨fun _ => hE _ _, ?_⟩⟩
  rintro locked rfl
  refine ⟨fun _ => hE _ _, fun happroved => ⟨fun _ => hE _ _, fun _ => ?_⟩⟩
  exact hQ locked (hfound locked rfl) happroved

theorem unseen_ownReceipt (o : SubscriptionOrder) (id : ℕ) : Unseen stageMonitor (ownReceipt o id) := by
  intro q
  simp only [ownReceipt, accepts_bind, accepts_issue, accepts_orThrow, accepts_refuseIf,
    outcome_ok, outcome_error]
  exact ⟨trivial, fun _ _ => ⟨fun _ => rfl, fun _ _ => ⟨fun _ => rfl, fun _ => rfl⟩⟩⟩

theorem unseen_refuseTwin (r : PaymentReceipt) : Unseen stageMonitor (refuseTwin r) := by
  intro q
  unfold refuseTwin
  split
  · rfl
  · simp only [accepts_bind, accepts_issue, accepts_refuseIf, outcome_ok]
    exact ⟨trivial, fun _ _ => ⟨fun _ => rfl, fun _ => rfl⟩⟩

/-- A part that only looks things up, then the rest. -/
theorem accepts_bind_unseen {β : Type} {p : Billing α} {f : α → Billing β}
    {Q : Except SubscriptionError β → Stage → Prop} (hp : Unseen stageMonitor p)
    (hE : ∀ e, Q (.error e) q) (hf : ∀ a, Accepts stageMonitor (f a) q Q) :
    Accepts stageMonitor (p >>= f) q Q := by
  rw [accepts_bind]
  apply Unseen.accepts hp
  intro out
  cases out with
  | ok a => exact hf a
  | error e => exact hE e

theorem accepts_saveApproval {zone : Zone} {adminUserId : ℕ} {o : SubscriptionOrder}
    (r : PaymentReceipt) (role : Role) (buyer : Buyer) (plan : SubscriptionPlan) (addRole : Bool)
    (startAt : ℤ) (happroved : o.status ≠ .approved) :
    Accepts stageMonitor (saveApproval zone adminUserId o r role buyer plan addRole startAt)
      (.ordered o.id (some o))
      (outcome (fun _ q' => q' = .idle) (fun _ q' => ∃ x, q' = .ordered o.id x)) := by
  simp only [saveApproval, dateNow, accepts_bind, accepts_issue, accepts_perform, accepts_orThrow,
    accepts_pure, outcome_ok, outcome_error]
  refine ⟨trivial, fun now _ => ⟨trivial, fun seen _ => ⟨?_, fun saved _ => ?_⟩⟩⟩
  · exact ⟨o.id, o, rfl, happroved, rfl, rfl⟩
  · constructor
    · rintro rfl
      exact ⟨some o, rfl⟩
    · rintro ids rfl
      rfl

theorem accepts_approveOrder (zone : Zone) (orderId receiptId adminUserId : ℕ) :
    Accepts stageMonitor (approveOrder zone orderId receiptId adminUserId) .idle
      (fun _ q' => q' = .idle) := by
  apply accepts_transaction
  rw [accepts_bind]
  apply accepts_lockForApproval
  · exact fun _ o => ⟨o, rfl⟩
  · rintro locked rfl happroved
    have hE : ∀ e : SubscriptionError, outcome (fun (_ : AccountProvisioningResult) q' => q' = Stage.idle)
        (fun _ q' => ∃ x, q' = .ordered locked.1.id x) (.error e)
        (Stage.ordered locked.1.id (some locked.1)) := fun _ => ⟨_, rfl⟩
    rw [outcome_ok]
    refine accepts_bind_unseen (unseen_ownReceipt _ _) hE fun receipt => ?_
    refine accepts_bind_unseen (unseen_of_looksUp (looksUp_refuseDecided _)) hE fun _ => ?_
    refine accepts_bind_unseen (unseen_refuseTwin _) hE fun _ => ?_
    refine accepts_bind_unseen (unseen_of_looksUp (looksUp_resolveBuyer _)) hE fun resolved => ?_
    refine accepts_bind_unseen (unseen_of_looksUp (looksUp_lacksRole _ _)) hE fun addRole => ?_
    refine accepts_bind_unseen (unseen_of_looksUp (looksUp_planOf _ _)) hE fun plan => ?_
    refine accepts_bind_unseen (unseen_of_looksUp (looksUp_startDate _)) hE fun startAt => ?_
    exact accepts_saveApproval receipt resolved.1 resolved.2 plan addRole startAt happroved

theorem accepts_insertTier {userId : ℕ} {now : ℤ} {tier : DriverReward} {t : ℚ}
    (hpaid : (tier.minTomans : ℚ) ≤ t) :
    Accepts stageMonitor (insertTier userId now tier) (.free userId t (.paid tier.minTomans))
      (fun _ q' => q' = .summed userId t) := by
  simp only [insertTier, accepts_bind, accepts_issue, accepts_ite, accepts_pure, accepts_throw,
    outcome_ok]
  refine ⟨⟨t, _, rfl⟩, fun startAt _ => ⟨⟨t, _, startAt, rfl, rfl, rfl, hpaid⟩, ?_⟩⟩
  intro saved _
  cases saved with
  | true => exact ⟨fun _ => rfl, fun h => absurd rfl h⟩
  | false => exact ⟨fun h => absurd h Bool.false_ne_true, fun _ => ⟨⟨t, rfl⟩, fun _ _ => rfl⟩⟩

theorem accepts_grantTier {userId : ℕ} {now : ℤ} {tier : DriverReward} {t : ℚ}
    (hpaid : (tier.minTomans : ℚ) ≤ t) :
    Accepts stageMonitor (grantTier userId now tier) (.summed userId t)
      (fun _ q' => q' = .summed userId t) := by
  simp only [grantTier, accepts_bind, accepts_issue, accepts_ite, accepts_pure, outcome_ok]
  refine ⟨⟨t, rfl⟩, fun _ _ => ⟨⟨t, rfl⟩, ?_⟩⟩
  intro had _
  cases had with
  | some bonus => exact ⟨fun _ => ⟨⟨t, rfl⟩, fun _ _ => rfl⟩, fun h => absurd rfl h⟩
  | none => exact ⟨fun h => absurd h Bool.false_ne_true, fun _ => accepts_insertTier hpaid⟩

/-- **The loop**: every tier finds the total that was read before the first. -/
theorem accepts_grantTiers {userId : ℕ} {now : ℤ} {tiers : List DriverReward} {t : ℚ}
    (hpaid : ∀ tier ∈ tiers, (tier.minTomans : ℚ) ≤ t) :
    Accepts stageMonitor (grantTiers userId now tiers) (.summed userId t)
      (fun _ q' => q' = .summed userId t) := by
  induction tiers with
  | nil => rfl
  | cons tier tiers ih =>
      simp only [grantTiers, accepts_bind, accepts_pure]
      apply accepts_mono (accepts_grantTier (hpaid tier List.mem_cons_self))
      rintro out q' rfl
      cases out with
      | error e => rfl
      | ok bonus =>
          apply accepts_mono (ih fun tier' htier' => hpaid tier' (List.mem_cons_of_mem _ htier'))
          rintro out' q'' rfl
          cases out' <;> rfl

theorem accepts_grantEarned (userId : ℕ) (now : ℤ) :
    Accepts stageMonitor (grantEarned userId now) .idle (fun _ _ => True) := by
  simp only [grantEarned, grantReached, paidTomans, accepts_bind, accepts_issue, accepts_ite,
    accepts_pure, outcome_ok]
  refine ⟨trivial, fun tiers htiers => ⟨fun _ => trivial, fun _ => ⟨trivial, fun driver _ => ?_⟩⟩⟩
  refine ⟨fun _ => ⟨rfl, ?_⟩, fun _ => trivial⟩
  rintro _ ⟨n, rfl⟩
  apply accepts_mono (accepts_grantTiers ?_) fun _ _ _ => trivial
  intro tier htier
  obtain ⟨hmem, hle⟩ := List.mem_filter.mp htier
  exact le_of_binary64 (htiers tier hmem) (of_decide_eq_true hle)

/-- **Every call keeps to the monitor.** -/
theorem accepts_rewardProgram (zone : Zone) (call : RewardCall) :
    Accepts stageMonitor (rewardProgram zone call) .idle (fun _ _ => True) := by
  cases call with
  | grantEarned userId now =>
      simp only [rewardProgram, unanswered, accepts_bind, accepts_pure]
      apply accepts_mono (accepts_grantEarned userId now)
      intro out _ _
      cases out <;> trivial
  | approveOrder orderId receiptId adminUserId =>
      simp only [rewardProgram, unanswered, accepts_bind, accepts_pure]
      apply accepts_mono (accepts_approveOrder zone orderId receiptId adminUserId)
      intro out _ _
      cases out <;> trivial

end Accepts

/-! ### Order rows -/

/-- Every subscription has its order approved, no order has two, and whoever holds an order's row
finds it as it was read. -/
structure OrderKept (row : ℕ → Option (ℕ × Option SubscriptionOrder)) (s : Store) : Prop where
  subscribed : ∀ b ∈ s.subscriptions.rows, OrderApproved s b.orderId
  once : SubscribedOnce s
  exclusive : Exclusive row s.orderLocks
  read : ∀ pid id o, row pid = some (id, o) → s.orders.get id = o

section OrderKept

variable {row : ℕ → Option (ℕ × Option SubscriptionOrder)} {s : Store} {pid : ℕ}

theorem OrderKept.of_eq {s' : Store} (h : OrderKept row s) (horders : s'.orders = s.orders)
    (hsubs : s'.subscriptions = s.subscriptions) (hlocks : s'.orderLocks = s.orderLocks) :
    OrderKept row s' := by
  constructor
  · rw [hsubs]
    intro b hb
    rw [OrderApproved, horders]
    exact h.subscribed b hb
  · rw [SubscribedOnce, hsubs]
    exact h.once
  · rw [hlocks]
    exact h.exclusive
  · rw [horders]
    exact h.read

theorem OrderKept.lock {id : ℕ} (h : OrderKept row s) (hfree : id ∉ s.orderLocks) :
    OrderKept (Function.update row pid (some (id, s.orders.get id)))
      { s with orderLocks := id :: s.orderLocks } := by
  refine ⟨h.subscribed, h.once, h.exclusive.lock hfree _, ?_⟩
  intro x y o hx
  rcases update_some_cases hx with ⟨_, heq⟩ | ⟨_, hx⟩
  · cases heq
    rfl
  · exact h.read x y o hx

theorem OrderKept.release {id : ℕ} {o : Option SubscriptionOrder} (h : OrderKept row s)
    (hheld : row pid = some (id, o)) :
    OrderKept (Function.update row pid none) { s with orderLocks := s.orderLocks.erase id } := by
  refine ⟨h.subscribed, h.once, h.exclusive.release hheld, ?_⟩
  intro x y o' hx
  exact h.read x y o' (update_none_eq_some hx).2

/-- **An approval**: the row it holds says the order was not approved, so it had no subscription. -/
theorem OrderKept.approve {o : SubscriptionOrder} {a : Approval} (userId : ℕ) (h : OrderKept row s)
    (hheld : row pid = some (a.order.id, some o)) (hstatus : o.status ≠ .approved)
    (happroved : a.order.status = .approved) :
    OrderKept (Function.update row pid none) (s.approved a userId) := by
  have hget : s.orders.get a.order.id = some o := h.read pid _ _ hheld
  have hnew : ∀ b ∈ s.subscriptions.rows, b.orderId ≠ a.order.id := by
    intro b hb heq
    obtain ⟨x, hx, hx'⟩ := h.subscribed b hb
    rw [heq, hget] at hx
    obtain rfl := Option.some.inj hx
    exact hstatus hx'
  have horders : ∀ id, id ≠ a.order.id → (s.approved a userId).orders.get id = s.orders.get id := by
    intro id hne
    exact Table.get_put_of_ne (a := a.orderFor userId) hne
  have hrows : ∀ b ∈ (s.approved a userId).subscriptions.rows,
      b = s.newSubscription a userId ∨ b ∈ s.subscriptions.rows := by
    intro b hb
    rcases Table.mem_put.mp hb with rfl | hb
    · exact .inl rfl
    · exact .inr hb.2
  refine ⟨?_, ?_, h.exclusive.release hheld, ?_⟩
  · intro b hb
    rcases hrows b hb with rfl | hb
    · exact ⟨a.orderFor userId, Table.get_put_self s.orders (a.orderFor userId), happroved⟩
    · obtain ⟨x, hx, hx'⟩ := h.subscribed b hb
      exact ⟨x, (horders _ (hnew b hb)).trans hx, hx'⟩
  · intro b hb b' hb' heq
    rcases hrows b hb with rfl | hb <;> rcases hrows b' hb' with rfl | hb'
    · rfl
    · exact absurd heq.symm (hnew b' hb')
    · exact absurd heq (hnew b hb)
    · exact h.once b hb b' hb' heq
  · intro x y o' hx
    obtain ⟨hx', hne⟩ := h.exclusive.others hheld hx
    exact (horders y hne).trans (h.read x y o' hx')

end OrderKept

/-! ### Advisory locks -/

/-- The start a holder of a user's advisory lock has computed comes after every bonus of the user,
and no two bonuses of a user overlap. -/
structure BonusKept (grant : ℕ → Option (ℕ × Option ℤ)) (s : Store) : Prop where
  exclusive : Exclusive grant s.bonusLocks
  after : ∀ pid u startAt, grant pid = some (u, some startAt) →
    ∀ b ∈ s.bonusesOf u, b.expireAt ≤ startAt
  apart : ∀ u, Separate ((s.bonusesOf u).map SubscriptionBonus.period)

section BonusKept

variable {grant : ℕ → Option (ℕ × Option ℤ)} {s : Store} {pid u : ℕ}

theorem BonusKept.of_eq {s' : Store} (h : BonusKept grant s) (hbonuses : s'.bonuses = s.bonuses)
    (hlocks : s'.bonusLocks = s.bonusLocks) : BonusKept grant s' := by
  have hof : ∀ u, s'.bonusesOf u = s.bonusesOf u := by
    intro u
    rw [Store.bonusesOf, Store.bonusesOf, hbonuses]
  constructor
  · rw [hlocks]
    exact h.exclusive
  · intro x y startAt hx
    rw [hof]
    exact h.after x y startAt hx
  · intro y
    rw [hof]
    exact h.apart y

theorem BonusKept.lock (h : BonusKept grant s) (hfree : u ∉ s.bonusLocks) :
    BonusKept (Function.update grant pid (some (u, none)))
      { s with bonusLocks := u :: s.bonusLocks } := by
  refine ⟨h.exclusive.lock hfree none, ?_, h.apart⟩
  intro x y startAt hx
  rcases update_some_cases hx with ⟨_, heq⟩ | ⟨_, hx⟩
  · cases heq
  · exact h.after x y startAt hx

/-- The holder has computed a start that comes after every bonus, or has none. -/
theorem BonusKept.carry {start start' : Option ℤ} (h : BonusKept grant s)
    (hheld : grant pid = some (u, start))
    (hafter : ∀ startAt ∈ start', ∀ b ∈ s.bonusesOf u, b.expireAt ≤ startAt) :
    BonusKept (Function.update grant pid (some (u, start'))) s := by
  refine ⟨h.exclusive.carry hheld start', ?_, h.apart⟩
  intro x y startAt hx
  rcases update_some_cases hx with ⟨_, heq⟩ | ⟨_, hx⟩
  · cases heq
    exact hafter startAt rfl
  · exact h.after x y startAt hx

theorem BonusKept.release {start : Option ℤ} (h : BonusKept grant s)
    (hheld : grant pid = some (u, start)) :
    BonusKept (Function.update grant pid none) { s with bonusLocks := s.bonusLocks.erase u } := by
  refine ⟨h.exclusive.release hheld, ?_, h.apart⟩
  intro x y startAt hx
  exact h.after x y startAt (update_none_eq_some hx).2

/-- **A bonus commits**: no bonus of the user came since its start was computed. -/
theorem BonusKept.insert {b : SubscriptionBonus} (h : BonusKept grant s)
    (hheld : grant pid = some (b.userId, some b.startAt)) (hfresh : s.bonuses.get b.key = none) :
    BonusKept (Function.update grant pid none)
      { s with bonuses := s.bonuses.put b, bonusLocks := s.bonusLocks.erase b.userId } := by
  have hof : ∀ y, Store.bonusesOf { s with
        bonuses := s.bonuses.put b, bonusLocks := s.bonusLocks.erase b.userId } y =
      s.bonusesOf y ++ if b.userId = y then [b] else [] := fun y => bonusesOf_put hfresh y
  refine ⟨h.exclusive.release hheld, ?_, ?_⟩
  · intro x y startAt hx
    obtain ⟨hx', hne⟩ := h.exclusive.others hheld hx
    rw [hof, if_neg hne.symm, List.append_nil]
    exact h.after x y startAt hx'
  · intro y
    rw [hof]
    by_cases huser : b.userId = y
    · subst huser
      rw [if_pos rfl, List.map_append]
      refine Separate.perm ((h.apart b.userId).cons (p := SubscriptionBonus.period b) ?_) ?_
      · intro q hq
        obtain ⟨c, hc, rfl⟩ := List.mem_map.mp hq
        exact h.after pid _ _ hheld c hc
      · exact (List.perm_append_singleton _ _).symm
    · rw [if_neg huser, List.append_nil]
      exact h.apart y

end BonusKept

/-! ### One statement -/

section Step

variable {stage : ℕ → Stage} {s s' : Store} {pid : ℕ} {q' : Stage} {w : World}

theorem OrderKept.stay (h : OrderKept (Stage.row ∘ stage) s) (hrow : q'.row = (stage pid).row)
    (horders : s'.orders = s.orders) (hsubs : s'.subscriptions = s.subscriptions)
    (hlocks : s'.orderLocks = s.orderLocks) :
    OrderKept (Stage.row ∘ Function.update stage pid q') s' := by
  rw [Function.comp_update, hrow]
  show OrderKept (Function.update (Stage.row ∘ stage) pid ((Stage.row ∘ stage) pid)) s'
  rw [Function.update_eq_self]
  exact h.of_eq horders hsubs hlocks

theorem BonusKept.stay (h : BonusKept (Stage.grant ∘ stage) s) (hgrant : q'.grant = (stage pid).grant)
    (hbonuses : s'.bonuses = s.bonuses) (hlocks : s'.bonusLocks = s.bonusLocks) :
    BonusKept (Stage.grant ∘ Function.update stage pid q') s' := by
  rw [Function.comp_update, hgrant]
  show BonusKept (Function.update (Stage.grant ∘ stage) pid ((Stage.grant ∘ stage) pid)) s'
  rw [Function.update_eq_self]
  exact h.of_eq hbonuses hlocks

/-- Every statement keeps what the orders' rows say. -/
theorem OrderKept.step (c : SubscriptionCmd) (h : OrderKept (Stage.row ∘ stage) s)
    (hallowed : stageAllowed (stage pid) c) (hfree : blocked c s = false) :
    OrderKept (Stage.row ∘ Function.update stage pid (stageNext (stage pid) c (exec w c s).1))
      (exec w c s).2 := by
  cases c with
  | lockOrder id =>
      rw [Function.comp_update]
      have hrow : Option.map Prod.fst (exec w (.lockOrder id) s).1 = s.orders.get id := by
        show Option.map Prod.fst (Option.map _ (s.orders.get id)) = _
        rw [Option.map_map]
        exact Option.map_id'
      show OrderKept (Function.update _ pid
        (some (id, Option.map Prod.fst (exec w (.lockOrder id) s).1))) _
      rw [hrow]
      exact h.lock (of_decide_eq_false hfree)
  | commitApproval a =>
      obtain ⟨id, o, hstage, hstatus, rfl, happroved⟩ := hallowed
      show OrderKept (Stage.row ∘ Function.update stage pid
        (stageNext (stage pid) (.commitApproval a) (s.commitApproval a).1)) (s.commitApproval a).2
      unfold Store.commitApproval
      cases s.buyerId a.buyer with
      | none => exact h.stay rfl rfl rfl rfl
      | some userId =>
          rw [Function.comp_update]
          exact h.approve userId (congrArg Stage.row hstage) hstatus happroved
  | rollback id =>
      obtain ⟨o, hstage⟩ := hallowed
      rw [Function.comp_update]
      exact h.release (congrArg Stage.row hstage)
  | sumTomans u => exact h.stay (by rw [show stage pid = .idle from hallowed]; rfl) rfl rfl rfl
  | lockBonuses u =>
      obtain ⟨t, hstage⟩ := hallowed
      exact h.stay (by rw [hstage]; rfl) rfl rfl rfl
  | findBonus u reason =>
      obtain ⟨t, hstage⟩ := hallowed
      refine h.stay ?_ rfl rfl rfl
      rw [hstage]
      show Stage.row (if _ then _ else _) = _
      split <;> rfl
  | freeFrom u now =>
      obtain ⟨t, reason, hstage⟩ := hallowed
      exact h.stay (by rw [hstage]; rfl) rfl rfl rfl
  | commitBonus b =>
      obtain ⟨t, m, startAt, hstage, _⟩ := hallowed
      have hrow : ∀ saved, (stageNext (stage pid) (.commitBonus b) saved).row = (stage pid).row := by
        intro saved
        rw [hstage]
        cases saved <;> rfl
      have htables : (s.commitBonus b).2.orders = s.orders ∧
          (s.commitBonus b).2.subscriptions = s.subscriptions ∧
          (s.commitBonus b).2.orderLocks = s.orderLocks := by
        unfold Store.commitBonus
        split <;> exact ⟨rfl, rfl, rfl⟩
      exact h.stay (hrow _) htables.1 htables.2.1 htables.2.2
  | unlockBonuses u =>
      obtain ⟨t, hstage⟩ := hallowed
      exact h.stay (by rw [hstage]; rfl) rfl rfl rfl
  | saveWithOrder receipt order => exact hallowed.elim
  | commitRejection r => exact hallowed.elim
  | claimForAnalysis id => exact hallowed.elim
  | releaseFailedAnalysis id maxAttempts => exact hallowed.elim
  | releaseStaleAnalyses before maxAttempts => exact hallowed.elim
  | _ => exact h.stay rfl rfl rfl rfl

/-- Every statement keeps what the advisory locks say. -/
theorem BonusKept.step (c : SubscriptionCmd) (h : BonusKept (Stage.grant ∘ stage) s)
    (hallowed : stageAllowed (stage pid) c) (hfree : blocked c s = false) :
    BonusKept (Stage.grant ∘ Function.update stage pid (stageNext (stage pid) c (exec w c s).1))
      (exec w c s).2 := by
  cases c with
  | lockOrder id => exact h.stay (by rw [show stage pid = .idle from hallowed]; rfl) rfl rfl
  | commitApproval a =>
      obtain ⟨id, o, hstage, _⟩ := hallowed
      have hgrant : ∀ saved, (stageNext (stage pid) (.commitApproval a) saved).grant =
          (stage pid).grant := by
        intro saved
        rw [hstage]
        cases saved <;> rfl
      have htables : (s.commitApproval a).2.bonuses = s.bonuses ∧
          (s.commitApproval a).2.bonusLocks = s.bonusLocks := by
        unfold Store.commitApproval
        split <;> exact ⟨rfl, rfl⟩
      exact h.stay (hgrant _) htables.1 htables.2
  | rollback id =>
      obtain ⟨o, hstage⟩ := hallowed
      exact h.stay (by rw [hstage]; rfl) rfl rfl
  | sumTomans u => exact h.stay (by rw [show stage pid = .idle from hallowed]; rfl) rfl rfl
  | lockBonuses u =>
      obtain ⟨t, hstage⟩ := hallowed
      rw [Function.comp_update, hstage]
      exact h.lock (of_decide_eq_false hfree)
  | findBonus u reason =>
      obtain ⟨t, hstage⟩ := hallowed
      refine h.stay ?_ rfl rfl
      rw [hstage]
      show Stage.grant (if _ then _ else _) = _
      split <;> rfl
  | freeFrom u now =>
      obtain ⟨t, reason, hstage⟩ := hallowed
      rw [Function.comp_update, hstage]
      apply h.carry (congrArg Stage.grant hstage)
      rintro startAt ⟨⟩ b hb
      exact stop_le_freeFrom (p := SubscriptionBonus.period b)
        (List.mem_append.mpr (.inr (List.mem_map_of_mem hb)))
  | commitBonus b =>
      obtain ⟨t, m, startAt, hstage, _, rfl, _⟩ := hallowed
      rw [Function.comp_update, hstage]
      show BonusKept (Function.update _ pid
        (stageNext (.dated b.userId t (.paid m) b.startAt) (.commitBonus b)
          (s.commitBonus b).1).grant) (s.commitBonus b).2
      unfold Store.commitBonus
      split
      · exact h.carry (congrArg Stage.grant hstage) (by rintro _ ⟨⟩)
      · rename_i hfresh
        exact h.insert (congrArg Stage.grant hstage) (Option.not_isSome_iff_eq_none.mp hfresh)
  | unlockBonuses u =>
      obtain ⟨t, hstage⟩ := hallowed
      rw [Function.comp_update, hstage]
      exact h.release (congrArg Stage.grant hstage)
  | saveWithOrder receipt order => exact hallowed.elim
  | commitRejection r => exact hallowed.elim
  | claimForAnalysis id => exact hallowed.elim
  | releaseFailedAnalysis id maxAttempts => exact hallowed.elim
  | releaseStaleAnalyses before maxAttempts => exact hallowed.elim
  | _ => exact h.stay rfl rfl rfl

end Step

/-! ### Every run -/

/-- Where every call stands after a trace. -/
def stages (tr : List (Event Resp)) : ℕ → Stage := stateOf stageMonitor .idle tr

theorem stages_act (tr : List (Event Resp)) (pid : ℕ) (c : SubscriptionCmd) (r : Resp c) :
    stages (.act pid c r :: tr) =
      Function.update (stages tr) pid (stageNext (stages tr pid) c r) := stateOf_act tr pid c r

/-- Every subscription has its order approved and to itself, and no two bonuses of a user overlap. -/
structure Orderly (s : Store) : Prop where
  subscribed : ∀ b ∈ s.subscriptions.rows, OrderApproved s b.orderId
  once : SubscribedOnce s
  apart : ∀ u, Separate ((s.bonusesOf u).map SubscriptionBonus.period)

/-- What the locks say in a configuration. -/
def Guarded (tr : List (Event Resp)) (s : Store) : Prop :=
  OrderKept (Stage.row ∘ stages tr) s ∧ BonusKept (Stage.grant ∘ stages tr) s

section Run

variable {zone : Zone} {s₀ : Store} {tr : List (Event Resp)} {b c : Conf Resp SubscriptionError Store}

theorem Orderly.guarded (h : Orderly s₀) : Guarded [] s₀ := by
  refine ⟨⟨h.subscribed, h.once, exclusive_of_none fun _ => rfl, ?_⟩,
    ⟨exclusive_of_none fun _ => rfl, ?_, h.apart⟩⟩
  · intro pid id o hrow
    cases hrow
  · intro pid u startAt hgrant
    cases hgrant

/-- Any run. -/
abbrev RewardRun (zone : Zone) (s₀ : Store) :
    List (Event Resp) → Conf Resp SubscriptionError Store → Prop :=
  (rewardMachine zone).Run (fun _ _ _ => True) (.start s₀)

theorem stageAnswers_exec (dtos : List DriverRewardDto) (q : Stage) (c : SubscriptionCmd) (s : Store) :
    stageAnswers q c (exec ⟨none, dtos.map DriverRewardDto.raw⟩ c s).1 := by
  cases c with
  | getDriverRewards => exact fun tier htier => normalizeRewards_le htier
  | sumTomans u => exact exists_tenths s u
  | lockOrder id =>
      intro locked hlocked
      obtain ⟨o, ho, rfl⟩ := Option.map_eq_some_iff.mp hlocked
      exact Table.key_of_get ho
  | _ => trivial

/-- **What a statement of a run is allowed and does.** -/
theorem step_stage {l : (rewardMachine zone).Label} {e : Event Resp} (h : RewardRun zone s₀ tr b)
    (hs : (rewardMachine zone).step b l = some (e, c)) :
    (stages (e :: tr) = stages tr ∧ ∃ passed : ℤ, c.store = { b.store with clock := passed }) ∨
      ∃ pid w cmd, e = .act pid cmd (exec w cmd b.store).1 ∧ stageAllowed (stages tr pid) cmd ∧
        blocked cmd b.store = false ∧ c.store = (exec w cmd b.store).2 := by
  cases l with
  | outside passed =>
      obtain ⟨s, hout, rfl, rfl⟩ := Machine.step_outside hs
      exact .inl ⟨rfl, _, (Option.some.inj hout).symm⟩
  | start call =>
      obtain ⟨p, s, hbegin, rfl, rfl⟩ := Machine.step_start hs
      obtain ⟨_, rfl⟩ := Prod.mk.inj (Option.some.inj hbegin)
      exact .inl ⟨rfl, b.store.clock, rfl⟩
  | act pid dtos =>
      obtain ⟨cmd, k, r, s, hcall, hexec, rfl, rfl⟩ := Machine.step_act hs
      have hallowed : stageAllowed (stages tr pid) cmd := by
        refine Run.allows (μ := stageMonitor) (F := fun _ => True) ?_ ?_ h hcall
        · intro call s p s' hbegin
          obtain ⟨rfl, _⟩ := Prod.mk.inj (Option.some.inj hbegin)
          exact accepts_rewardProgram zone call
        · intro _ a _ dtos' c' r' s' q hx _
          rw [show (rewardMachine zone).exec dtos' c' a.store =
            if blocked c' a.store then none
            else some (exec ⟨none, dtos'.map DriverRewardDto.raw⟩ c' a.store) from rfl] at hx
          split at hx
          · cases hx
          · obtain ⟨rfl, _⟩ := Prod.mk.inj (Option.some.inj hx)
            exact stageAnswers_exec dtos' q c' a.store
      rw [show (rewardMachine zone).exec dtos cmd b.store =
        if blocked cmd b.store then none
        else some (exec ⟨none, dtos.map DriverRewardDto.raw⟩ cmd b.store) from rfl] at hexec
      split at hexec
      · cases hexec
      · rename_i hfree
        obtain ⟨rfl, rfl⟩ := Prod.mk.inj (Option.some.inj hexec)
        exact .inr ⟨pid, _, cmd, rfl, hallowed, Bool.eq_false_of_not_eq_true hfree, rfl⟩

/-- **The locks hold in every run.** -/
theorem run_guarded (hinit : Orderly s₀) (h : RewardRun zone s₀ tr b) : Guarded tr b.store := by
  refine Machine.Run.invariant (fun tr b => Guarded tr b.store) hinit.guarded ?_ h
  intro tr b l e c hrun hguarded hs _
  rcases step_stage hrun hs with ⟨hstages, passed, hstore⟩ | ⟨pid, w, cmd, rfl, hallowed, hfree, hstore⟩
  · rw [Guarded, hstages, hstore]
    exact ⟨hguarded.1.of_eq rfl rfl rfl, hguarded.2.of_eq rfl rfl⟩
  · rw [Guarded, stages_act, hstore]
    exact ⟨hguarded.1.step cmd hallowed hfree, hguarded.2.step cmd hallowed hfree⟩

end Run

/-! ### Looking back -/

section History

variable (zone : Zone) (s₀ : Store) (y : List (Event Resp) × Conf Resp SubscriptionError Store)

/-- The call read the user's total while the user's approved orders came to at least that. -/
def Summed (pid u : ℕ) (tomans : ℚ) : Prop :=
  ∃ x, (rewardMachine zone).Took (fun _ _ _ => True) (.start s₀) x (.act pid (.sumTomans u) tomans) y ∧
    tomans ≤ approvedTomans x.2.store u

/-- The call computed a start while no active subscription of the user ended later. -/
def Dated (pid u : ℕ) (startAt : ℤ) : Prop :=
  ∃ x now, (rewardMachine zone).Took (fun _ _ _ => True) (.start s₀) x
      (.act pid (.freeFrom u now) startAt) y ∧
    ∀ sub ∈ x.2.store.activeOf u, sub.expireAt ≤ startAt

/-- One call read the total, computed the start and inserted the bonus. -/
def Earned (bonus : SubscriptionBonus) : Prop :=
  ∃ pid m tomans, bonus.reason = .paid m ∧ (m : ℚ) ≤ tomans ∧
    Summed zone s₀ y pid bonus.userId tomans ∧ Dated zone s₀ y pid bonus.userId bonus.startAt ∧
    ∃ x, (rewardMachine zone).Took (fun _ _ _ => True) (.start s₀) x
      (.act pid (.commitBonus bonus) true) y

/-- What the calls in progress have read, and every bonus that is new. -/
structure Remembered : Prop where
  totals : ∀ pid u t, (stages y.1 pid).total = some (u, t) → Summed zone s₀ y pid u t
  starts : ∀ pid u startAt, (stages y.1 pid).grant = some (u, some startAt) →
    Dated zone s₀ y pid u startAt
  bonuses : ∀ bonus ∈ y.2.store.bonuses.rows, bonus ∉ s₀.bonuses.rows → Earned zone s₀ y bonus

end History

section Next

variable {zone : Zone} {s₀ : Store} {y : List (Event Resp) × Conf Resp SubscriptionError Store}
  {c : Conf Resp SubscriptionError Store} {l : (rewardMachine zone).Label} {e : Event Resp}

theorem Summed.next {pid u : ℕ} {tomans : ℚ} (h : Summed zone s₀ y pid u tomans)
    (hs : (rewardMachine zone).step y.2 l = some (e, c)) :
    Summed zone s₀ (e :: y.1, c) pid u tomans := by
  obtain ⟨x, htook, hle⟩ := h
  exact ⟨x, htook.next hs trivial, hle⟩

theorem Dated.next {pid u : ℕ} {startAt : ℤ} (h : Dated zone s₀ y pid u startAt)
    (hs : (rewardMachine zone).step y.2 l = some (e, c)) :
    Dated zone s₀ (e :: y.1, c) pid u startAt := by
  obtain ⟨x, now, htook, hafter⟩ := h
  exact ⟨x, now, htook.next hs trivial, hafter⟩

theorem Earned.next {bonus : SubscriptionBonus} (h : Earned zone s₀ y bonus)
    (hs : (rewardMachine zone).step y.2 l = some (e, c)) : Earned zone s₀ (e :: y.1, c) bonus := by
  obtain ⟨pid, m, tomans, hreason, hle, hsummed, hdated, x, htook⟩ := h
  exact ⟨pid, m, tomans, hreason, hle, hsummed.next hs, hdated.next hs, x, htook.next hs trivial⟩

/-- Where a total comes from. -/
theorem total_next {q : Stage} {cmd : SubscriptionCmd} {r : Resp cmd} {u : ℕ} {t : ℚ}
    (h : (stageNext q cmd r).total = some (u, t)) :
    q.total = some (u, t) ∨ ∀ pid, Event.act pid cmd r = .act pid (.sumTomans u) t := by
  cases cmd with
  | sumTomans v =>
      cases h
      exact .inr fun _ => rfl
  | lockOrder id => cases h
  | rollback id => cases h
  | commitApproval a =>
      left
      cases r with
      | none => exact h
      | some ids => cases h
  | findBonus v reason =>
      left
      cases r with
      | none => cases q <;> exact h
      | some bonus => exact h
  | commitBonus bonus =>
      left
      cases q <;> cases r <;> exact h
  | lockBonuses v => left; cases q <;> exact h
  | freeFrom v now => left; cases q <;> exact h
  | unlockBonuses v => left; cases q <;> exact h
  | _ => exact .inl h

/-- Where a start comes from. -/
theorem start_next {q : Stage} {cmd : SubscriptionCmd} {r : Resp cmd} {u : ℕ} {startAt : ℤ}
    (hallowed : stageAllowed q cmd) (h : (stageNext q cmd r).grant = some (u, some startAt)) :
    q.grant = some (u, some startAt) ∨
      ∃ now, ∀ pid, Event.act pid cmd r = .act pid (.freeFrom u now) startAt := by
  cases cmd with
  | freeFrom v now =>
      obtain ⟨t, reason, rfl⟩ := hallowed
      cases h
      exact .inr ⟨now, fun _ => rfl⟩
  | lockOrder id => cases h
  | rollback id => cases h
  | sumTomans v => cases h
  | commitApproval a =>
      left
      cases r with
      | none => exact h
      | some ids => cases h
  | findBonus v reason =>
      obtain ⟨t, rfl⟩ := hallowed
      cases r <;> cases h
  | commitBonus bonus =>
      obtain ⟨t, m, x, rfl, _⟩ := hallowed
      cases r <;> cases h
  | lockBonuses v =>
      obtain ⟨t, rfl⟩ := hallowed
      cases h
  | unlockBonuses v =>
      obtain ⟨t, rfl⟩ := hallowed
      cases h
  | _ => exact .inl h

/-- Where a bonus comes from. -/
theorem bonus_next {w : World} {cmd : SubscriptionCmd} {s : Store} {bonus : SubscriptionBonus}
    (h : bonus ∈ (exec w cmd s).2.bonuses.rows) :
    bonus ∈ s.bonuses.rows ∨
      ∀ pid, Event.act pid cmd (exec w cmd s).1 = .act pid (.commitBonus bonus) true := by
  cases cmd with
  | commitBonus new =>
      have hcommit : bonus ∈ (s.commitBonus new).2.bonuses.rows := h
      by_cases hfresh : (s.bonuses.get new.key).isSome
      · rw [Store.commitBonus, if_pos hfresh] at hcommit
        exact .inl hcommit
      · rw [Store.commitBonus, if_neg hfresh] at hcommit
        rcases Table.mem_put.mp hcommit with rfl | hold
        · have hanswer : (exec w (.commitBonus bonus) s).1 = true := by
            show (s.commitBonus bonus).1 = true
            rw [Store.commitBonus, if_neg hfresh]
          rw [hanswer]
          exact .inr fun _ => rfl
        · exact .inl hold.2
  | commitApproval a =>
      left
      have hcommit : bonus ∈ (s.commitApproval a).2.bonuses.rows := h
      unfold Store.commitApproval at hcommit
      split at hcommit <;> exact hcommit
  | claimForAnalysis id =>
      left
      have hclaim : bonus ∈ (s.claimForAnalysis id).2.bonuses.rows := h
      unfold Store.claimForAnalysis at hclaim
      split at hclaim
      · split at hclaim <;> exact hclaim
      · exact hclaim
  | releaseFailedAnalysis id maxAttempts =>
      left
      have hrelease : bonus ∈ (s.releaseFailedAnalysis id maxAttempts).bonuses.rows := h
      unfold Store.releaseFailedAnalysis at hrelease
      split at hrelease
      · split at hrelease <;> exact hrelease
      · exact hrelease
  | _ => exact .inl h

/-- **One step remembers**, and adds what it has read itself. -/
theorem Remembered.step (hinit : Orderly s₀) (hrun : RewardRun zone s₀ y.1 y.2)
    (h : Remembered zone s₀ y) (hs : (rewardMachine zone).step y.2 l = some (e, c)) :
    Remembered zone s₀ (e :: y.1, c) := by
  rcases step_stage hrun hs with ⟨hstages, passed, hstore⟩ | ⟨pid, w, cmd, rfl, hallowed, _, hstore⟩
  · refine ⟨?_, ?_, ?_⟩
    · intro x u t hx
      rw [hstages] at hx
      exact (h.totals x u t hx).next hs
    · intro x u startAt hx
      rw [hstages] at hx
      exact (h.starts x u startAt hx).next hs
    · intro bonus hbonus hnew
      rw [hstore] at hbonus
      exact (h.bonuses bonus hbonus hnew).next hs
  · have htook := hrun.took hs trivial
    refine ⟨?_, ?_, ?_⟩
    · intro x u t hx
      rw [stages_act] at hx
      by_cases hpid : x = pid
      · rw [hpid, Function.update_self] at hx
        subst hpid
        rcases total_next hx with hx | hevent
        · exact (h.totals x u t hx).next hs
        · -- the sum counts no order twice, since no order has two subscriptions
          have hsum : t = y.2.store.sumTomans u := by
            have := hevent x
            cases this
            rfl
          rw [hevent] at htook ⊢
          refine ⟨y, htook, ?_⟩
          rw [hsum]
          exact sumTomans_le (run_guarded hinit hrun).1.once u
      · rw [Function.update_of_ne hpid] at hx
        exact (h.totals x u t hx).next hs
    · intro x u startAt hx
      rw [stages_act] at hx
      by_cases hpid : x = pid
      · rw [hpid, Function.update_self] at hx
        subst hpid
        rcases start_next hallowed hx with hx | ⟨now, hevent⟩
        · exact (h.starts x u startAt hx).next hs
        · have hstart : startAt = y.2.store.freeFrom u now := by
            have := hevent x
            cases this
            rfl
          rw [hevent] at htook ⊢
          refine ⟨y, now, htook, ?_⟩
          intro sub hsub
          rw [hstart]
          exact stop_le_freeFrom (p := Subscription.period sub)
            (List.mem_append.mpr (.inl (List.mem_map_of_mem hsub)))
      · rw [Function.update_of_ne hpid] at hx
        exact (h.starts x u startAt hx).next hs
    · intro bonus hbonus hnew
      rw [hstore] at hbonus
      rcases bonus_next hbonus with hold | hevent
      · exact (h.bonuses bonus hold hnew).next hs
      · have hcmd : cmd = .commitBonus bonus := (Event.act.inj (hevent pid)).2.1
        rw [hcmd] at hallowed
        obtain ⟨t, m, startAt, hstage, hreason, rfl, hle⟩ := hallowed
        have hsummed := h.totals pid bonus.userId t (by rw [hstage]; rfl)
        have hdated := h.starts pid bonus.userId bonus.startAt (by rw [hstage]; rfl)
        refine ⟨pid, m, t, hreason, hle, hsummed.next hs, hdated.next hs, y, ?_⟩
        rw [hevent] at htook ⊢
        exact htook

end Next

theorem run_remembered {zone : Zone} {s₀ : Store} {tr : List (Event Resp)}
    {b : Conf Resp SubscriptionError Store} (hinit : Orderly s₀) (h : RewardRun zone s₀ tr b) :
    Remembered zone s₀ (tr, b) := by
  refine Machine.Run.invariant (fun tr b => Remembered zone s₀ (tr, b)) ?_ ?_ h
  · refine ⟨?_, ?_, fun bonus hbonus hnew => absurd hbonus hnew⟩
    · intro pid u t htotal
      cases htotal
    · intro pid u startAt hgrant
      cases hgrant
  · intro tr b l e c hrun hremembered hs _
    exact hremembered.step hinit hrun hs

/-- **Each tier once, back to back.**  In every run no user has two bonuses for one amount, no two
bonuses of a user overlap, and every new bonus was inserted by a call that had read a total of at
least the tier while the user's approved orders came to at least that total, and that had computed
its start while no active subscription of the user ended later. -/
theorem tiers_once_back_to_back (zone : Zone) {s₀ : Store} {tr : List (Event Resp)}
    {b : Conf Resp SubscriptionError Store} (hinit : Orderly s₀) (h : RewardRun zone s₀ tr b) :
    (∀ x ∈ b.store.bonuses.rows, ∀ x' ∈ b.store.bonuses.rows,
      x.userId = x'.userId → x.reason = x'.reason → x = x') ∧
      (∀ u, Separate ((b.store.bonusesOf u).map SubscriptionBonus.period)) ∧
      ∀ bonus ∈ b.store.bonuses.rows, bonus ∉ s₀.bonuses.rows → Earned zone s₀ (tr, b) bonus := by
  refine ⟨?_, (run_guarded hinit h).2.apart, (run_remembered hinit h).bonuses⟩
  intro x hx x' hx' huser hreason
  exact Table.eq_of_key hx hx' (Prod.ext huser hreason)

/-! ### Overlapping calls -/

/-- Ten days for 400,000 tomans. -/
def tenDayTier : List DriverRewardDto := [⟨400000, 10, by decide, by decide, by decide, by decide⟩]

/-- Five days for 500,000 tomans. -/
def fiveDayTier : List DriverRewardDto := [⟨500000, 5, by decide, by decide, by decide, by decide⟩]

/-- An order is approved; then three calls read the total before any of them gives a tier.  Two of
them read the first tiers, of which the second finds the tier given; the third reads the tiers that
replaced them. -/
def overlapping : List (rewardMachine .utc).Label :=
  [[.start (.approveOrder 1 1 9)], List.replicate 12 (.act 0 tenDayTier),
    [.start (.grantEarned 7 1000), .start (.grantEarned 7 1000), .start (.grantEarned 7 1000)],
    List.replicate 3 (.act 1 tenDayTier), List.replicate 3 (.act 2 tenDayTier),
    List.replicate 3 (.act 3 fiveDayTier), List.replicate 4 (.act 1 tenDayTier),
    List.replicate 3 (.act 2 tenDayTier), List.replicate 4 (.act 3 fiveDayTier)].flatten

/-- Where the calls end. -/
def overlapped : Option (List (Event Resp) × Conf Resp SubscriptionError Store) :=
  (rewardMachine .utc).play (fun _ _ _ => True) [] (.start twoOrders) overlapping

theorem orderly_twoOrders : Orderly twoOrders := by
  refine ⟨?_, ?_, fun u => List.Pairwise.nil⟩
  · intro b hb
    cases hb
  · intro b hb
    cases hb

theorem tiers_once_back_to_back_overlapped :
    ∃ tr b, overlapped = some (tr, b) ∧ b.store.bonuses.rows.length = 2 ∧
      Separate ((b.store.bonusesOf 7).map SubscriptionBonus.period) ∧
      ∀ bonus ∈ b.store.bonuses.rows, Earned .utc twoOrders (tr, b) bonus := by
  have htwo : (overlapped.map fun y => y.2.store.bonuses.rows.length) = some 2 := by
    decide +kernel
  obtain ⟨⟨tr, b⟩, hplay, hlength⟩ := Option.map_eq_some_iff.mp htwo
  have hrun : RewardRun .utc twoOrders tr b := Machine.play_run .nil hplay
  obtain ⟨_, hapart, hearned⟩ := tiers_once_back_to_back .utc orderly_twoOrders hrun
  refine ⟨tr, b, hplay, hlength, hapart 7, ?_⟩
  intro bonus hbonus
  exact hearned bonus hbonus (by intro hold; cases hold)

end TransportBackend.RewardTiers
