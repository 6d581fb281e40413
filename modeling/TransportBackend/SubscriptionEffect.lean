import TransportBackend.SubscriptionService

/-!
# What an approval does when it runs alone

A transaction whose statements nothing comes between either changes nothing or does everything at
once.  One rule for each helper, in the form `After` takes programs apart, and from them:

* `after_approveOrder` — **an approval that throws leaves the store as it was, one that returns made
  exactly the writes of `Approves`**: the order undecided before, the receipt its own and undecided,
  no approved receipt with its tracking code, the period from where the buyer's current subscription
  ends;
* `after_rejectReceipt` — the same of a rejection.
-/

namespace TransportBackend.SubscriptionEffect

open TransportBackend.AtomicProgram
open TransportBackend.AtomicProgram.Prog
open TransportBackend.KeyedTable
open TransportBackend.SubscriptionStore
open TransportBackend.SubscriptionService

/-! ### What an approval looks up -/

/-- The user the order's bot account is linked to. -/
def linkedBuyer (s : Store) (o : SubscriptionOrder) : Option User :=
  (s.botLinks.get o.providerUserId).bind fun link => s.users.get link.userId

/-- The account an approval of this order gives the subscription to. -/
def buyerOf (s : Store) (o : SubscriptionOrder) : Buyer :=
  match (linkedBuyer s o).or (s.userByPhone (normalizePhone o.phoneNumber)) with
  | some user => .known user
  | none => .created (normalizePhone o.phoneNumber)

/-- The start of the next subscription of this buyer. -/
def startFrom (s : Store) : Buyer → ℤ
  | .known user => (s.current user.id s.clock).elim s.clock Subscription.expireAt
  | .created _ => s.clock

/-- The store while a transaction holds the order's row. -/
def locking (s : Store) (orderId : ℕ) : Store := { s with orderLocks := orderId :: s.orderLocks }

/-- The store once the transaction has let go of it. -/
def unlocking (s : Store) (orderId : ℕ) : Store :=
  { s with orderLocks := s.orderLocks.erase orderId }

@[simp] theorem unlocking_locking (s : Store) (orderId : ℕ) :
    unlocking (locking s orderId) orderId = s := by
  simp [unlocking, locking]

/-! ### One rule for each helper -/

section Rules

variable {α : Type} {w : World} {s : Store} {E : Store → Prop}

@[simp] theorem after_issue (c : SubscriptionCmd) (s : Store) {Q : Resp c → Store → Prop} :
    Prog.After (α := no_index (Resp c)) (exec w) (issue c) s Q E ↔
      Q (exec w c s).1 (exec w c s).2 := Iff.rfl

@[simp] theorem after_dateNow (s : Store) {Q : ℤ → Store → Prop} :
    dateNow.After (exec w) s Q E ↔ Q s.clock s := Iff.rfl

theorem after_transaction {orderId : ℕ} {body : Billing α} {Q : α → Store → Prop}
    (h : body.After (exec w) s Q (fun s' => E (unlocking s' orderId))) :
    (transaction orderId body).After (exec w) s Q E := by
  rw [transaction, after_bind]
  apply after_attempt
  exact after_mono h (fun _ _ hQ => hQ) (fun _ hE _ => hE)

theorem after_lockForApproval {id : ℕ}
    {Q : SubscriptionOrder × Option SubscriptionPlan → Store → Prop} (hE : E (locking s id))
    (hQ : ∀ o, s.orders.get id = some o → o.status ≠ .approved → o.status ≠ .cancelled →
      Q (o, s.plans.get o.subscriptionPlanId) (locking s id)) :
    (lockForApproval id).After (exec w) s Q E := by
  simp only [lockForApproval, after_bind, after_issue, after_orThrow, after_refuseIf, after_pure,
    exec, Option.map_eq_some_iff]
  refine ⟨fun _ => hE, ?_⟩
  rintro locked ⟨o, ho, rfl⟩
  exact ⟨fun _ => hE, fun happroved => ⟨fun _ => hE, fun hcancelled => hQ o ho happroved hcancelled⟩⟩

theorem after_ownReceipt {o : SubscriptionOrder} {id : ℕ} {Q : PaymentReceipt → Store → Prop}
    (hE : E s) (hQ : ∀ r, s.receipts.get id = some r → r.orderId = o.id → Q r s) :
    (ownReceipt o id).After (exec w) s Q E := by
  simp only [ownReceipt, after_bind, after_issue, after_orThrow, after_refuseIf, after_pure, exec]
  refine ⟨fun _ => hE, fun r hr => ⟨fun _ => hE, fun hown => ?_⟩⟩
  exact hQ r hr (not_not.mp hown)

theorem after_refuseDecided {r : PaymentReceipt} {Q : Unit → Store → Prop} (hE : E s)
    (hQ : r.status ≠ .rejected → r.status ≠ .approved → Q () s) :
    (refuseDecided r).After (exec w) s Q E := by
  simp only [refuseDecided, after_bind, after_refuseIf]
  exact ⟨fun _ => hE, fun hrejected => ⟨fun _ => hE, fun happroved => hQ hrejected happroved⟩⟩

theorem after_refuseTwin {r : PaymentReceipt} {Q : Unit → Store → Prop} (hE : E s)
    (hQ : (∀ code ∈ r.trackingCode, s.approvedTwin code r.id = none) → Q () s) :
    (refuseTwin r).After (exec w) s Q E := by
  unfold refuseTwin
  cases hcode : r.trackingCode with
  | none =>
      apply hQ
      intro code hmem
      rw [hcode] at hmem
      cases hmem
  | some code =>
      simp only [after_bind, after_issue, after_refuseIf, exec]
      refine ⟨fun _ => hE, fun htwin => hQ ?_⟩
      intro code' hmem
      obtain rfl : code = code' := Option.some.inj (hcode.symm.trans hmem)
      exact Option.not_isSome_iff_eq_none.mp htwin

theorem after_asBuyer {phone : String} {user : Option User} {Q : Buyer → Store → Prop} (hE : E s)
    (hQ : Q (user.elim (.created phone) .known) s) :
    (asBuyer phone user).After (exec w) s Q E := by
  cases user with
  | none => exact hQ
  | some user =>
      simp only [asBuyer, after_bind, after_refuseIf, after_pure]
      exact ⟨fun _ => hE, fun _ => hQ⟩

theorem after_linkedUser {o : SubscriptionOrder} {Q : Option User → Store → Prop}
    (hQ : Q (linkedBuyer s o) s) :
    (linkedUser (s.botLinks.get o.providerUserId)).After (exec w) s Q E := by
  unfold linkedBuyer at hQ
  cases hlink : s.botLinks.get o.providerUserId with
  | none =>
      rw [hlink] at hQ
      exact hQ
  | some link =>
      rw [hlink] at hQ
      exact hQ

theorem after_orByPhone {phone : String} {user : Option User} {Q : Option User → Store → Prop}
    (hQ : Q (user.or (s.userByPhone phone)) s) :
    (orByPhone phone user).After (exec w) s Q E := by
  cases user with
  | none => exact hQ
  | some user => exact hQ

theorem after_resolveBuyer {o : SubscriptionOrder} {Q : Role × Buyer → Store → Prop} (hE : E s)
    (hQ : ∀ role, Q (role, buyerOf s o) s) : (resolveBuyer o).After (exec w) s Q E := by
  simp only [resolveBuyer, after_bind, after_issue, after_orThrow, exec]
  refine ⟨fun _ => hE, fun role _ => ?_⟩
  apply after_linkedUser
  apply after_orByPhone
  apply after_asBuyer hE
  rw [after_pure]
  have hbuyer : Option.elim ((linkedBuyer s o).or (s.userByPhone (normalizePhone o.phoneNumber)))
      (Buyer.created (normalizePhone o.phoneNumber)) Buyer.known = buyerOf s o := by
    unfold buyerOf
    cases (linkedBuyer s o).or (s.userByPhone (normalizePhone o.phoneNumber)) <;> rfl
  rw [hbuyer]
  exact hQ role

theorem after_lacksRole {roleId : ℕ} {buyer : Buyer} {Q : Bool → Store → Prop} (hQ : ∀ b, Q b s) :
    (lacksRole roleId buyer).After (exec w) s Q E := by
  cases buyer with
  | known user => exact hQ _
  | created username => exact hQ true

theorem after_planOf {o : SubscriptionOrder} {joined : Option SubscriptionPlan}
    {Q : SubscriptionPlan → Store → Prop} (hE : E s) (hQ : ∀ plan, Q plan s) :
    (planOf o joined).After (exec w) s Q E := by
  cases joined with
  | some plan => exact hQ plan
  | none =>
      simp only [planOf, after_bind, after_issue, after_orThrow, exec]
      exact ⟨fun _ => hE, fun plan _ => hQ plan⟩

theorem after_startDate {buyer : Buyer} {Q : ℤ → Store → Prop} (hQ : Q (startFrom s buyer) s) :
    (startDate buyer).After (exec w) s Q E := by
  cases buyer with
  | created username => exact hQ
  | known user =>
      simp only [startDate, after_bind, after_dateNow, after_issue, exec]
      unfold startFrom at hQ
      dsimp only at hQ
      cases hcurrent : s.current user.id s.clock with
      | none =>
          rw [hcurrent] at hQ
          exact hQ
      | some current =>
          rw [hcurrent] at hQ
          exact hQ

end Rules

/-! ### Reads that take no lock -/

/-- The statements of an approval between its checks and its writes: they look things up. -/
def Lookup : SubscriptionCmd → Prop
  | .now => True
  | .findActiveRole _ => True
  | .findBotLink _ => True
  | .findUser _ => True
  | .findUserByPhone _ => True
  | .hasRole _ _ => True
  | .findPlan _ => True
  | .findCurrent _ _ => True
  | .reloadReceipt _ => True
  | _ => False

/-- The program only looks things up. -/
def LooksUp {α : Type} (p : Billing α) : Prop :=
  p.Within Lookup (fun _ _ => True) (fun _ => True)

theorem looksUp_refuseDecided (r : PaymentReceipt) : LooksUp (refuseDecided r) := by
  simp only [LooksUp, refuseDecided, within_bind, within_refuseIf]
  exact fun _ _ => trivial

theorem looksUp_asBuyer (phone : String) (user : Option User) : LooksUp (asBuyer phone user) := by
  cases user with
  | none => trivial
  | some user =>
      simp only [LooksUp, asBuyer, within_bind, within_refuseIf]
      exact fun _ => trivial

theorem looksUp_orByPhone (phone : String) (user : Option User) : LooksUp (orByPhone phone user) := by
  cases user with
  | none => exact ⟨trivial, fun _ _ => trivial⟩
  | some user => trivial

theorem looksUp_linkedUser (link : Option BotLink) : LooksUp (linkedUser link) := by
  cases link with
  | none => trivial
  | some link => exact ⟨trivial, fun _ _ => trivial⟩

theorem looksUp_resolveBuyer (o : SubscriptionOrder) : LooksUp (resolveBuyer o) := by
  simp only [LooksUp, resolveBuyer, within_bind, within_orThrow]
  refine ⟨trivial, fun _ _ role _ => ⟨trivial, fun link _ => ?_⟩⟩
  apply within_mono (looksUp_linkedUser link)
  intro linked _
  apply within_mono (looksUp_orByPhone _ linked)
  intro user _
  exact within_mono (looksUp_asBuyer _ user) fun _ _ => trivial

theorem looksUp_lacksRole (roleId : ℕ) (buyer : Buyer) : LooksUp (lacksRole roleId buyer) := by
  cases buyer with
  | known user => exact ⟨trivial, fun _ _ => trivial⟩
  | created username => trivial

theorem looksUp_planOf (o : SubscriptionOrder) (joined : Option SubscriptionPlan) :
    LooksUp (planOf o joined) := by
  cases joined with
  | some plan => trivial
  | none =>
      simp only [LooksUp, planOf, within_bind, within_orThrow]
      exact ⟨trivial, fun _ _ _ _ => trivial⟩

theorem looksUp_startDate (buyer : Buyer) : LooksUp (startDate buyer) := by
  cases buyer with
  | created username => exact ⟨trivial, fun _ _ => trivial⟩
  | known user =>
      refine ⟨trivial, fun _ _ => ⟨trivial, fun current _ => ?_⟩⟩
      cases current with
      | none => exact ⟨trivial, fun _ _ => trivial⟩
      | some current => trivial

/-! ### The transactions -/

/-- What an approval of this order and receipt writes, and what it found before. -/
structure Approves (s : Store) (orderId receiptId adminUserId : ℕ) (o : SubscriptionOrder)
    (r : PaymentReceipt) (a : Approval) (userId : ℕ) : Prop where
  order : s.orders.get orderId = some o
  undecided : o.status ≠ .approved ∧ o.status ≠ .cancelled
  receipt : s.receipts.get receiptId = some r
  own : r.orderId = orderId
  unapproved : r.status ≠ .approved
  untwinned : ∀ code ∈ r.trackingCode, s.approvedTwin code receiptId = none
  buyer : a.buyer = buyerOf s o
  userId : s.buyerId a.buyer = some userId
  startAt : a.startAt = startFrom s a.buyer
  savedOrder : a.order = SubscriptionOrder.approvedBy adminUserId s.clock o
  savedReceipt : a.receipt = PaymentReceipt.approvedBy adminUserId s.clock r
  seen : a.seen = some r

/-- The store after an approval that nothing came between. -/
def approvedAlone (s : Store) (a : Approval) (userId : ℕ) : Store :=
  { s.approved a userId with orderLocks := s.orderLocks }

/-- A save that finds the row as it was read leaves the entity. -/
theorem savedReceipt_seen {s : Store} {entity r : PaymentReceipt}
    (hr : s.receipts.get entity.id = some r) : s.savedReceipt entity (some r) = entity := by
  simp only [Store.savedReceipt, hr]
  exact PaymentReceipt.merge_seen (Table.key_of_get hr).symm

/-- The buyer of an order is found or can be made: nobody has the phone of a new one. -/
theorem exists_buyerId (s : Store) (o : SubscriptionOrder) :
    ∃ userId, s.buyerId (buyerOf s o) = some userId := by
  unfold buyerOf
  cases h : (linkedBuyer s o).or (s.userByPhone (normalizePhone o.phoneNumber)) with
  | some user => exact ⟨user.id, rfl⟩
  | none =>
      refine ⟨s.freshUser, ?_⟩
      have hfree : s.userByPhone (normalizePhone o.phoneNumber) = none :=
        (Option.or_eq_none_iff.mp h).2
      simp [Store.buyerId, hfree]

section Transactions

variable {w : World} {s : Store} {orderId receiptId adminUserId : ℕ}

/-- **An approval alone**: nothing, or everything at once. -/
theorem after_approveOrder (zone : Zone) :
    (approveOrder zone orderId receiptId adminUserId).After (exec w) s
      (fun _ s' => ∃ o r a userId, Approves s orderId receiptId adminUserId o r a userId ∧
        s' = approvedAlone s a userId) (fun s' => s' = s) := by
  have hback : unlocking (locking s orderId) orderId = s := unlocking_locking s orderId
  apply after_transaction
  simp only [after_bind]
  refine after_lockForApproval hback ?_
  intro o ho happroved hcancelled
  refine after_ownReceipt hback ?_
  intro r hr hown
  have hid : o.id = orderId := Table.key_of_get ho
  have hrid : r.id = receiptId := Table.key_of_get hr
  refine after_refuseDecided hback ?_
  intro _ hunapproved
  refine after_refuseTwin hback ?_
  intro htwin
  refine after_resolveBuyer hback ?_
  intro role
  apply after_lacksRole
  intro addRole
  refine after_planOf hback ?_
  intro plan
  apply after_startDate
  simp only [saveApproval, after_bind, after_dateNow, after_issue, after_orThrow, after_pure, exec]
  obtain ⟨userId, huser⟩ := exists_buyerId s o
  have hcommit : ∀ a : Approval, a.buyer = buyerOf s o → a.order.id = orderId →
      (locking s orderId).commitApproval a =
        (some (userId, s.subscriptions.fresh), approvedAlone s a userId) := by
    intro a hbuyer horder
    have hlocked : (locking s orderId).buyerId a.buyer = some userId := by
      rw [hbuyer]
      exact huser
    unfold Store.commitApproval
    rw [hlocked]
    simp [approvedAlone, Store.approved, locking, horder, Store.withBuyer, Store.newSubscription,
      Store.savedReceipt, Store.freshUser]
  rw [hcommit _ rfl hid]
  refine ⟨fun hnone => absurd hnone (by simp), fun ids _ => ?_⟩
  refine ⟨o, r, _, userId, ?_, rfl⟩
  exact
    { order := ho
      undecided := ⟨happroved, hcancelled⟩
      receipt := hr
      own := hown.trans hid
      unapproved := hunapproved
      untwinned := hrid ▸ htwin
      buyer := rfl
      userId := huser
      startAt := rfl
      savedOrder := rfl
      savedReceipt := rfl
      seen := by rw [hrid]; exact hr }

/-- What a rejection of this order and receipt found before. -/
structure Rejects (s : Store) (orderId receiptId : ℕ) (o : SubscriptionOrder) (r : PaymentReceipt) :
    Prop where
  order : s.orders.get orderId = some o
  unapproved : o.status ≠ .approved
  receipt : s.receipts.get receiptId = some r
  own : r.orderId = orderId

/-- The store after a rejection that nothing came between. -/
def rejectedAlone (s : Store) (adminUserId : ℕ) (reason : String) (o : SubscriptionOrder)
    (r : PaymentReceipt) : Store :=
  { s with
    receipts := s.receipts.put (PaymentReceipt.rejectedBy adminUserId reason s.clock r)
    orders := s.orders.put (SubscriptionOrder.rejectedFor reason s.clock o) }

/-- **A rejection alone**: nothing, or both rows at once. -/
theorem after_rejectReceipt (reason : String) :
    (rejectReceipt orderId receiptId adminUserId reason).After (exec w) s
      (fun _ s' => ∃ o r, Rejects s orderId receiptId o r ∧
        s' = rejectedAlone s adminUserId reason o r) (fun s' => s' = s) := by
  have hback : unlocking (locking s orderId) orderId = s := unlocking_locking s orderId
  apply after_transaction
  simp only [after_bind, after_issue, after_orThrow, after_refuseIf, exec, Option.map_eq_some_iff]
  refine ⟨fun _ => hback, ?_⟩
  rintro locked ⟨o, ho, rfl⟩
  refine ⟨fun _ => hback, fun happroved => ?_⟩
  refine after_ownReceipt hback ?_
  intro r hr hown
  have hid : o.id = orderId := Table.key_of_get ho
  have hrid : r.id = receiptId := Table.key_of_get hr
  simp only [after_dateNow]
  refine ⟨o, r, ⟨ho, happroved, hr, hown.trans hid⟩, ?_⟩
  have hget : s.receipts.get r.id = some r := by
    rw [hrid]
    exact hr
  show (locking s orderId).commitRejection
    ⟨SubscriptionOrder.rejectedFor reason s.clock o,
      PaymentReceipt.rejectedBy adminUserId reason s.clock r, s.receipts.get r.id⟩ = _
  rw [hget, Store.commitRejection]
  rw [show (locking s orderId).savedReceipt (PaymentReceipt.rejectedBy adminUserId reason s.clock r)
    (some r) = _ from savedReceipt_seen hget]
  simp [locking, rejectedAlone, SubscriptionOrder.rejectedFor, hid]

end Transactions

end TransportBackend.SubscriptionEffect
