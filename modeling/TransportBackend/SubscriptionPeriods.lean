import TransportBackend.PeriodChain
import TransportBackend.SubscriptionEffect

/-!
# The periods a user has

What a user bought and what a user was given are periods of two tables.  An approval starts the new
subscription where the latest active one ends and does not look at the bonuses; a reward starts where
both have ended.

* `periodsOf` — the periods of a user's active subscriptions and bonuses;
* `separate_grantEarned` — **a reward never overlaps anything**;
* `separate_approvedAlone` — an approval overlaps nothing when no bonus of the buyer outlasts both the
  present and the buyer's subscriptions;
* `periods_stay_separate` — the same over every history of approvals and rewards.
-/

namespace TransportBackend.SubscriptionPeriods

open TransportBackend.AtomicProgram
open TransportBackend.AtomicProgram.Prog
open TransportBackend.KeyedTable
open TransportBackend.PeriodChain
open TransportBackend.SubscriptionStore
open TransportBackend.SubscriptionService
open TransportBackend.SubscriptionEffect

/-! ### Periods -/

def Subscription.period (b : Subscription) : Period ℤ := ⟨b.startAt, b.expireAt⟩

def SubscriptionBonus.period (b : SubscriptionBonus) : Period ℤ := ⟨b.startAt, b.expireAt⟩

/-- The periods of a user's `ACTIVE` subscriptions and of its bonuses. -/
def periodsOf (s : Store) (userId : ℕ) : List (Period ℤ) :=
  (s.activeOf userId).map Subscription.period ++ (s.bonusesOf userId).map SubscriptionBonus.period

/-- No two periods of one user overlap. -/
def AllSeparate (s : Store) : Prop := ∀ userId, Separate (periodsOf s userId)

/-! ### Where a new period starts -/

theorem foldr_max_ge {t : ℤ} {xs : List ℤ} : t ≤ xs.foldr max t := by
  induction xs with
  | nil => exact le_refl t
  | cons x xs ih => exact ih.trans (le_max_right _ _)

theorem le_foldr_max {t x : ℤ} {xs : List ℤ} (h : x ∈ xs) : x ≤ xs.foldr max t := by
  induction xs with
  | nil => simp at h
  | cons y ys ih =>
      rcases List.mem_cons.mp h with rfl | h
      · exact le_max_left _ _
      · exact (ih h).trans (le_max_right _ _)

/-- **A reward starts where every period of the user has ended.** -/
theorem stop_le_freeFrom {s : Store} {userId : ℕ} {now : ℤ} {p : Period ℤ}
    (hp : p ∈ periodsOf s userId) : p.stop ≤ s.freeFrom userId now := by
  apply le_foldr_max
  rcases List.mem_append.mp hp with hp | hp
  · obtain ⟨b, hb, rfl⟩ := List.mem_map.mp hp
    exact List.mem_append.mpr (.inl (List.mem_map_of_mem hb))
  · obtain ⟨b, hb, rfl⟩ := List.mem_map.mp hp
    exact List.mem_append.mpr (.inr (List.mem_map_of_mem hb))

theorem latest_ge {bs : List Subscription} {b : Subscription} (hb : b ∈ bs) :
    ∃ c, latest bs = some c ∧ b.expireAt ≤ c.expireAt := by
  induction bs with
  | nil => simp at hb
  | cons d ds ih =>
      rcases List.mem_cons.mp hb with rfl | hb
      · unfold latest
        split
        · rename_i c _
          refine ⟨_, rfl, ?_⟩
          split <;> omega
        · exact ⟨b, rfl, le_refl _⟩
      · obtain ⟨c, hc, hle⟩ := ih hb
        simp only [latest, hc]
        refine ⟨_, rfl, ?_⟩
        split <;> omega

theorem latest_mem {bs : List Subscription} {c : Subscription} (hc : latest bs = some c) :
    c ∈ bs := by
  induction bs generalizing c with
  | nil => cases hc
  | cons d ds ih =>
      unfold latest at hc
      split at hc
      · rename_i e he
        rw [← Option.some.inj hc]
        split
        · exact List.mem_cons_of_mem _ (ih he)
        · exact List.mem_cons_self
      · rw [← Option.some.inj hc]
        exact List.mem_cons_self

/-- The next subscription starts no earlier than now. -/
theorem clock_le_startFrom (s : Store) (buyer : Buyer) : s.clock ≤ startFrom s buyer := by
  cases buyer with
  | created username => exact le_refl s.clock
  | known user =>
      show s.clock ≤ (s.current user.id s.clock).elim s.clock Subscription.expireAt
      cases hc : s.current user.id s.clock with
      | none => exact le_refl s.clock
      | some c =>
          have hmem := (List.mem_filter.mp (latest_mem hc)).2
          exact (of_decide_eq_true hmem).le

/-- The next subscription starts where every active one has ended. -/
theorem expireAt_le_startFrom {s : Store} {user : User} {b : Subscription}
    (hb : b ∈ s.activeOf user.id) : b.expireAt ≤ startFrom s (.known user) := by
  by_cases hnow : s.clock < b.expireAt
  · have hmem : b ∈ (s.activeOf user.id).filter fun b => s.clock < b.expireAt :=
      List.mem_filter.mpr ⟨hb, decide_eq_true hnow⟩
    obtain ⟨c, hc, hle⟩ := latest_ge hmem
    have hcurrent : s.current user.id s.clock = some c := hc
    rw [startFrom, hcurrent]
    exact hle
  · exact (not_lt.mp hnow).trans (clock_le_startFrom s _)

/-! ### A new subscription, a new bonus -/

theorem activeOf_put {s : Store} {b : Subscription} (hfresh : s.subscriptions.get b.id = none)
    (hactive : b.status = .active) (userId : ℕ) :
    Store.activeOf { s with subscriptions := s.subscriptions.put b } userId =
      s.activeOf userId ++ if b.userId = userId then [b] else [] := by
  show ((s.subscriptions.put b).rows.filter _) = _
  rw [Table.rows_put_of_get hfresh, List.filter_append]
  congr 1
  by_cases huser : b.userId = userId <;> simp [huser, hactive]

theorem bonusesOf_put {s : Store} {b : SubscriptionBonus} (hfresh : s.bonuses.get b.key = none)
    (userId : ℕ) :
    Store.bonusesOf { s with bonuses := s.bonuses.put b } userId =
      s.bonusesOf userId ++ if b.userId = userId then [b] else [] := by
  show ((s.bonuses.put b).rows.filter _) = _
  rw [Table.rows_put_of_get hfresh, List.filter_append]
  congr 1
  by_cases huser : b.userId = userId <;> simp [huser]

/-- A subscription that starts after every period of its user. -/
theorem AllSeparate.addSubscription {s : Store} {b : Subscription} (h : AllSeparate s)
    (hfresh : s.subscriptions.get b.id = none) (hactive : b.status = .active)
    (hafter : ∀ p ∈ periodsOf s b.userId, p.stop ≤ b.startAt) :
    AllSeparate { s with subscriptions := s.subscriptions.put b } := by
  intro userId
  rw [periodsOf, activeOf_put hfresh hactive]
  by_cases huser : b.userId = userId
  · subst huser
    rw [if_pos rfl, List.map_append]
    refine Separate.perm ((h b.userId).cons (p := Subscription.period b) hafter) ?_
    show (_ :: ((s.activeOf b.userId).map Subscription.period ++ _)).Perm _
    rw [List.append_assoc]
    exact List.perm_middle.symm
  · rw [if_neg huser, List.append_nil]
    exact h userId

/-- A bonus that starts after every period of its user. -/
theorem AllSeparate.addBonus {s : Store} {b : SubscriptionBonus} (h : AllSeparate s)
    (hfresh : s.bonuses.get b.key = none)
    (hafter : ∀ p ∈ periodsOf s b.userId, p.stop ≤ b.startAt) :
    AllSeparate { s with bonuses := s.bonuses.put b } := by
  intro userId
  rw [periodsOf, bonusesOf_put hfresh]
  by_cases huser : b.userId = userId
  · subst huser
    rw [if_pos rfl, List.map_append, ← List.append_assoc]
    refine Separate.perm ((h b.userId).cons (p := SubscriptionBonus.period b) hafter) ?_
    exact (List.perm_append_singleton _ _).symm
  · rw [if_neg huser, List.append_nil]
    exact h userId

/-- Only the two tables of periods matter. -/
theorem AllSeparate.of_eq {s s' : Store} (h : AllSeparate s)
    (hsubs : s'.subscriptions = s.subscriptions) (hbonuses : s'.bonuses = s.bonuses) :
    AllSeparate s' := by
  intro userId
  rw [periodsOf, Store.activeOf, Store.bonusesOf, hsubs, hbonuses]
  exact h userId

/-! ### Rewards -/

section Rewards

variable {w : World} {s : Store} {userId : ℕ} {now : ℤ}

theorem AllSeparate.commitBonus {b : SubscriptionBonus} (h : AllSeparate s)
    (hafter : ∀ p ∈ periodsOf s b.userId, p.stop ≤ b.startAt) :
    AllSeparate (s.commitBonus b).2 := by
  unfold Store.commitBonus
  split
  · exact h
  · rename_i hfree
    exact (h.addBonus (Option.not_isSome_iff_eq_none.mp hfree) hafter).of_eq rfl rfl

theorem separate_insertTier (tier : DriverReward) (h : AllSeparate s) :
    (insertTier userId now tier).After (exec w) s (fun _ s' => AllSeparate s') AllSeparate := by
  have hcommit := h.commitBonus (b := tierBonus userId tier (s.freeFrom userId now))
    (fun p hp => stop_le_freeFrom hp)
  simp only [insertTier, after_bind, after_issue, exec, after_ite]
  exact ⟨fun _ => hcommit, fun _ => hcommit.of_eq rfl rfl⟩

theorem separate_grantTier (tier : DriverReward) (h : AllSeparate s) :
    (grantTier userId now tier).After (exec w) s (fun _ s' => AllSeparate s') AllSeparate := by
  simp only [grantTier, after_bind, after_issue, exec, after_ite]
  constructor
  · intro _
    exact h.of_eq rfl rfl
  · intro _
    exact separate_insertTier tier (h.of_eq rfl rfl)

theorem separate_grantTiers (tiers : List DriverReward) (h : AllSeparate s) :
    (grantTiers userId now tiers).After (exec w) s (fun _ s' => AllSeparate s') AllSeparate := by
  induction tiers generalizing s with
  | nil => exact h
  | cons tier tiers ih =>
      simp only [grantTiers, after_bind, after_pure]
      apply after_mono (separate_grantTier tier h)
      · intro _ s' hs'
        exact ih hs'
      · exact fun _ hs' => hs'

/-- **A reward never overlaps anything.** -/
theorem separate_grantEarned (h : AllSeparate s) :
    (grantEarned userId now).After (exec w) s (fun _ s' => AllSeparate s') AllSeparate := by
  simp only [grantEarned, after_bind, after_issue, exec, after_ite]
  refine ⟨fun _ => h, fun _ => ⟨fun _ => ?_, fun _ => h⟩⟩
  simp only [grantReached, paidTomans, after_bind, after_issue, after_pure, exec]
  exact separate_grantTiers _ h

end Rewards

/-! ### Approvals -/

/-- No bonus of the buyer outlasts both `now` and the buyer's active subscriptions. -/
def ClearOfBonuses (s : Store) (now : ℤ) : Buyer → Prop
  | .known user => ∀ b ∈ s.bonusesOf user.id,
      b.expireAt ≤ now ∨ ∃ c ∈ s.activeOf user.id, b.expireAt ≤ c.expireAt
  | .created _ => True

instance (s : Store) (now : ℤ) : (buyer : Buyer) → Decidable (ClearOfBonuses s now buyer)
  | .known user => inferInstanceAs (Decidable (∀ b ∈ s.bonusesOf user.id,
      b.expireAt ≤ now ∨ ∃ c ∈ s.activeOf user.id, b.expireAt ≤ c.expireAt))
  | .created _ => .isTrue trivial

/-- Nobody has the id of a new user. -/
theorem ne_freshUser {s : Store} {id : ℕ}
    (h : id ∈ s.users.rows.map User.id ++ s.subscriptions.rows.map Subscription.userId ++
      s.bonuses.rows.map SubscriptionBonus.userId) : id ≠ s.freshUser := by
  have hle := KeyedTable.le_foldr_max h
  rw [Store.freshUser]
  omega

theorem periodsOf_freshUser (s : Store) : periodsOf s s.freshUser = [] := by
  have hsubs : s.activeOf s.freshUser = [] := by
    apply List.filter_eq_nil_iff.mpr
    intro b hb hcond
    simp only [Bool.and_eq_true, decide_eq_true_eq] at hcond
    exact ne_freshUser (by simp only [List.mem_append, List.mem_map]; exact .inl (.inr ⟨b, hb, rfl⟩))
      hcond.1
  have hbonuses : s.bonusesOf s.freshUser = [] := by
    apply List.filter_eq_nil_iff.mpr
    intro b hb hcond
    simp only [decide_eq_true_eq] at hcond
    exact ne_freshUser (by simp only [List.mem_append, List.mem_map]; exact .inr ⟨b, hb, rfl⟩) hcond
  rw [periodsOf, hsubs, hbonuses]
  rfl

/-- **An approval overlaps nothing**, when no bonus outlasts what the buyer has bought. -/
theorem separate_approvedAlone {s : Store} {orderId receiptId adminUserId userId : ℕ}
    {o : SubscriptionOrder} {r : PaymentReceipt} {a : Approval}
    (ha : Approves s orderId receiptId adminUserId o r a userId)
    (hclear : ClearOfBonuses s s.clock (buyerOf s o)) (h : AllSeparate s) :
    AllSeparate (approvedAlone s a userId) := by
  have hadd := h.addSubscription (b := s.newSubscription a userId) (Table.get_fresh s.subscriptions)
    rfl ?_
  · exact hadd.of_eq rfl rfl
  · intro p hp
    show p.stop ≤ a.startAt
    have hp' : p ∈ periodsOf s userId := hp
    rw [ha.startAt]
    have huser := ha.userId
    rw [ha.buyer] at huser ⊢
    cases hbuyer : buyerOf s o with
    | created username =>
        rw [hbuyer, Store.buyerId] at huser
        split at huser
        · cases huser
        · rw [← Option.some.inj huser, periodsOf_freshUser] at hp'
          cases hp'
    | known user =>
        rw [hbuyer] at huser hclear
        obtain rfl : user.id = userId := Option.some.inj huser
        rcases List.mem_append.mp hp' with hp' | hp'
        · obtain ⟨b, hb, rfl⟩ := List.mem_map.mp hp'
          exact expireAt_le_startFrom hb
        · obtain ⟨b, hb, rfl⟩ := List.mem_map.mp hp'
          rcases hclear b hb with hnow | ⟨c, hc, hle⟩
          · exact hnow.trans (clock_le_startFrom s _)
          · exact hle.trans (expireAt_le_startFrom hc)

/-! ### Histories -/

/-- The two calls that give a user a period; a reward with the tiers the policy holds then. -/
inductive PeriodCall where
  | approveOrder (orderId receiptId adminUserId : ℕ)
  | grantEarned (rewards : List RawReward) (userId : ℕ)

/-- The store at time `t`. -/
def atTime (t : ℤ) (s : Store) : Store := { s with clock := t }

/-- A call run whole at time `t`, to its end or to the error it throws. -/
def callAt (zone : Zone) (t : ℤ) (s : Store) : PeriodCall → Store
  | .approveOrder orderId receiptId adminUserId =>
      ((approveOrder zone orderId receiptId adminUserId).run (exec ⟨none, []⟩) (atTime t s)).2
  | .grantEarned rewards userId =>
      ((grantEarned userId t).run (exec ⟨none, rewards⟩) (atTime t s)).2

/-- The histories from `s₀` whose every call meets `Ok`: calls one after another at non-decreasing
times, and between them anything that leaves the two tables of periods alone (new orders, receipts,
users, plans). -/
inductive History (zone : Zone) (Ok : ℤ → Store → PeriodCall → Prop) (s₀ : Store) : Store → Prop where
  | nil : History zone Ok s₀ s₀
  | call {s : Store} {t : ℤ} {call : PeriodCall} :
      History zone Ok s₀ s → s.clock ≤ t → Ok t s call → History zone Ok s₀ (callAt zone t s call)
  | other {s s' : Store} :
      History zone Ok s₀ s → s'.subscriptions = s.subscriptions → s'.bonuses = s.bonuses →
      s.clock ≤ s'.clock → History zone Ok s₀ s'

/-- When an order is approved, no bonus of its buyer outlasts both now and the buyer's active
subscriptions. -/
def BoughtAfterBonuses (t : ℤ) (s : Store) : PeriodCall → Prop
  | .approveOrder orderId _ _ => ∀ o ∈ s.orders.get orderId, ClearOfBonuses s t (buyerOf s o)
  | .grantEarned _ _ => True

instance (t : ℤ) (s : Store) : (call : PeriodCall) → Decidable (BoughtAfterBonuses t s call)
  | .approveOrder orderId _ _ =>
      inferInstanceAs (Decidable (∀ o ∈ s.orders.get orderId, ClearOfBonuses s t (buyerOf s o)))
  | .grantEarned _ _ => .isTrue trivial

theorem clearOfBonuses_atTime {s : Store} {t : ℤ} {o : SubscriptionOrder}
    (h : ClearOfBonuses s t (buyerOf s o)) :
    ClearOfBonuses (atTime t s) (atTime t s).clock (buyerOf (atTime t s) o) := by
  rw [show buyerOf (atTime t s) o = buyerOf s o from rfl]
  generalize buyerOf s o = buyer at h
  cases buyer with
  | known user => exact h
  | created username => trivial

/-- One call. -/
theorem separate_callAt {zone : Zone} {s : Store} {t : ℤ} {call : PeriodCall} (h : AllSeparate s)
    (hok : BoughtAfterBonuses t s call) : AllSeparate (callAt zone t s call) := by
  have h' : AllSeparate (atTime t s) := h.of_eq rfl rfl
  cases call with
  | grantEarned rewards userId => exact After.store (separate_grantEarned h')
  | approveOrder orderId receiptId adminUserId =>
      refine After.store (P := AllSeparate) (after_mono (after_approveOrder zone) ?_ ?_)
      · rintro _ s' ⟨o, r, a, userId, ha, rfl⟩
        exact separate_approvedAlone ha (clearOfBonuses_atTime (hok o ha.order)) h'
      · rintro s' rfl
        exact h'

/-- **Nothing bought or given is lost to overlap**, in every history in which an order is approved
only when no bonus of its buyer outlasts what the buyer has bought. -/
theorem periods_stay_separate (zone : Zone) {s₀ s : Store} (h₀ : AllSeparate s₀)
    (h : History zone BoughtAfterBonuses s₀ s) (userId : ℕ) : Separate (periodsOf s userId) := by
  have hall : AllSeparate s := by
    induction h with
    | nil => exact h₀
    | call _ _ hok ih => exact separate_callAt ih hok
    | other _ hsubs hbonuses _ ih => exact ih.of_eq hsubs hbonuses
  exact hall userId

/-! ### A history of each kind -/

/-- An order of the driver's plan, with its receipt to be reviewed. -/
def drivenOrder (id : ℕ) : SubscriptionOrder where
  id := id
  provider := .bale
  providerUserId := "bale:1"
  phoneNumber := "09120000000"
  accountType := .driver
  subscriptionPlanId := 1
  amount := 500000
  currency := "IRT"
  status := .underReview
  createdUserId := none
  approvedAt := none
  approvedByUserId := none
  rejectedAt := none
  rejectionReason := none

def drivenReceipt (id : ℕ) : PaymentReceipt :=
  { PaymentReceipt.submitted "receipts/1.jpg" none with
    id := id
    orderId := id
    status := .needsReview }

/-- A driver has paid for two months. -/
def twoOrders : Store :=
  { Store.empty 1000 with
    orders := (Table.empty.put (drivenOrder 1)).put (drivenOrder 2)
    receipts := (Table.empty.put (drivenReceipt 1)).put (drivenReceipt 2)
    plans := Table.empty.put ⟨1, .driver, 30, 500000, "IRT"⟩
    users := Table.empty.put ⟨7, "09120000000", some "09120000000", true⟩
    roles := Table.empty.put ⟨1, "DRIVER", true⟩
    botLinks := Table.empty.put ⟨"bale:1", 7⟩ }

/-- Ten free days for 400,000 tomans. -/
def tenDays : List RawReward := [⟨some 400000, some 10⟩]

theorem allSeparate_twoOrders : AllSeparate twoOrders := fun _ => List.Pairwise.nil

/-- Both months are approved before the reward. -/
def boughtFirst : Store :=
  callAt .utc 3000 (callAt .utc 2000 (callAt .utc 1000 twoOrders (.approveOrder 1 1 9))
    (.approveOrder 2 2 9)) (.grantEarned tenDays 7)

theorem periods_stay_separate_boughtFirst :
    AllSeparate twoOrders ∧ History .utc BoughtAfterBonuses twoOrders boughtFirst ∧
      (periodsOf boughtFirst 7).length = 3 ∧ Separate (periodsOf boughtFirst 7) := by
  have hhistory : History .utc BoughtAfterBonuses twoOrders boughtFirst := by
    refine .call (.call (.call .nil ?_ ?_) ?_ ?_) ?_ ?_ <;> decide
  refine ⟨allSeparate_twoOrders, hhistory, by decide +kernel, ?_⟩
  exact periods_stay_separate .utc allSeparate_twoOrders hhistory 7

/-- The reward comes between the two approvals. -/
def rewardedBetween : Store :=
  callAt .utc 3000 (callAt .utc 2000 (callAt .utc 1000 twoOrders (.approveOrder 1 1 9))
    (.grantEarned tenDays 7)) (.approveOrder 2 2 9)

/-- The second month starts where the first ends, on the days of the reward. -/
theorem second_month_overlaps_reward :
    AllSeparate twoOrders ∧ History .utc (fun _ _ _ => True) twoOrders rewardedBetween ∧
      ¬Separate (periodsOf rewardedBetween 7) := by
  refine ⟨allSeparate_twoOrders, ?_, by decide +kernel⟩
  refine .call (.call (.call .nil ?_ trivial) ?_ trivial) ?_ trivial <;> decide +kernel

end TransportBackend.SubscriptionPeriods
