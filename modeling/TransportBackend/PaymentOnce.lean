import TransportBackend.InterleavedRun
import TransportBackend.SubscriptionEffect

/-!
# One payment, one subscription

Receipts are submitted and analyzed while an admin approves or rejects orders.  Approvals and
rejections are transactions that hold the order's row, so each happens at once (`paymentMachine`); an
analysis loads receipt and order, waits for the model, and saves both as it had loaded them.

* `Paid` — an approved receipt and every subscription belong to an approved order, and no order has
  two subscriptions;
* `Step` — what one change of the tables keeps: `Paid`, and every approval made before;
* `disciplined_paymentProgram` — what the services save outside a transaction is never approved;
* `payment_once` — **approved stays approved, and an order is subscribed once**, in every run in which
  no submission and no analysis saves over a row that is approved by then.
-/

namespace TransportBackend.PaymentOnce

open TransportBackend.AtomicProgram
open TransportBackend.AtomicProgram.Prog
open TransportBackend.InterleavedRun
open TransportBackend.KeyedTable
open TransportBackend.SubscriptionStore
open TransportBackend.SubscriptionService
open TransportBackend.SubscriptionEffect

/-! ### The calls -/

/-- The calls on orders and receipts. -/
inductive PaymentCall where
  | submitReceipt (params : SubmitPaymentReceiptParams)
  | processReceipt (receiptId : ℕ)
  | releaseStaleAnalyses (startedBefore : ℤ)
  | tick
  | approveOrder (orderId receiptId adminUserId : ℕ)
  | rejectReceipt (orderId receiptId adminUserId : ℕ) (reason : String)

/-- A method whose result nobody waits for. -/
def unanswered {α : Type} (p : Billing α) : Billing Unit := do
  let _ ← p
  pure ()

/-- A transaction run to its end: what is left of the call, and the store. -/
def atOnce {α : Type} (p : Billing α) (s : Store) : Billing Unit × Store :=
  (.ret (), (p.run (exec ⟨none, []⟩) s).2)

/-- How a call starts: the two transactions happen at once, the others statement by statement. -/
def paymentProgram (zone : Zone) (cfg : AnalysisConfig) : PaymentCall → Store → Billing Unit × Store
  | .submitReceipt params, s => (unanswered (submitReceipt params), s)
  | .processReceipt id, s => (processReceipt cfg id, s)
  | .releaseStaleAnalyses before, s =>
      (issue (.releaseStaleAnalyses before cfg.maxAnalysisAttempts), s)
  | .tick, s => (tick cfg, s)
  | .approveOrder orderId receiptId adminUserId, s =>
      atOnce (approveOrder zone orderId receiptId adminUserId) s
  | .rejectReceipt orderId receiptId adminUserId reason, s =>
      atOnce (rejectReceipt orderId receiptId adminUserId reason) s

/-- Any number of these calls on one store; time passes between their steps. -/
def paymentMachine (zone : Zone) (cfg : AnalysisConfig) :
    Machine Resp SubscriptionError Store where
  Choice := World
  Outside := ℕ
  Call := PaymentCall
  exec w c s := some (exec w c s)
  outside passed s := some { s with clock := s.clock + passed }
  begin call s := some (paymentProgram zone cfg call s)

/-! ### What the tables keep -/

/-- The order is there and approved. -/
def OrderApproved (s : Store) (id : ℕ) : Prop :=
  ∃ o, s.orders.get id = some o ∧ o.status = .approved

/-- The receipt is there and approved. -/
def ReceiptApproved (s : Store) (id : ℕ) : Prop :=
  ∃ r, s.receipts.get id = some r ∧ r.status = .approved

/-- Every approved receipt and every subscription has its order approved; no order has two
subscriptions. -/
structure Paid (s : Store) : Prop where
  receipts : ∀ id r, s.receipts.get id = some r → r.status = .approved → OrderApproved s r.orderId
  subscriptions : ∀ b ∈ s.subscriptions.rows, OrderApproved s b.orderId
  once : ∀ b ∈ s.subscriptions.rows, ∀ b' ∈ s.subscriptions.rows, b.orderId = b'.orderId → b = b'

/-- Every approval made in `s` stands in `s'`. -/
structure Kept (s s' : Store) : Prop where
  orders : ∀ id, OrderApproved s id → OrderApproved s' id
  receipts : ∀ id, ReceiptApproved s id → ReceiptApproved s' id

/-- The change keeps every approval, and what is `Paid`. -/
def Step (s s' : Store) : Prop := Paid s → Paid s' ∧ Kept s s'

theorem Kept.refl (s : Store) : Kept s s := ⟨fun _ h => h, fun _ h => h⟩

theorem Kept.trans {s s' s'' : Store} (h : Kept s s') (h' : Kept s' s'') : Kept s s'' :=
  ⟨fun id hid => h'.orders id (h.orders id hid), fun id hid => h'.receipts id (h.receipts id hid)⟩

theorem Step.refl (s : Store) : Step s s := fun h => ⟨h, Kept.refl s⟩

theorem Step.trans {s s' s'' : Store} (h : Step s s') (h' : Step s' s'') : Step s s'' := by
  intro hs
  obtain ⟨hs', hkept⟩ := h hs
  obtain ⟨hs'', hkept'⟩ := h' hs'
  exact ⟨hs'', hkept.trans hkept'⟩

/-- A store with the same orders, receipts and subscriptions. -/
theorem Step.of_eq {s s' : Store} (ho : s'.orders = s.orders) (hr : s'.receipts = s.receipts)
    (hb : s'.subscriptions = s.subscriptions) : Step s s' := by
  intro h
  have horder : ∀ id, OrderApproved s' id ↔ OrderApproved s id := by
    intro id
    rw [OrderApproved, OrderApproved, ho]
  refine ⟨⟨?_, ?_, ?_⟩, ⟨fun id hid => (horder id).mpr hid, fun id hid => ?_⟩⟩
  · intro id r hget happroved
    rw [hr] at hget
    exact (horder _).mpr (h.receipts id r hget happroved)
  · intro b hmem
    rw [hb] at hmem
    exact (horder _).mpr (h.subscriptions b hmem)
  · rw [hb]
    exact h.once
  · rw [ReceiptApproved, hr]
    exact hid

/-! ### Saves over rows that are not approved -/

section Saves

variable {s : Store}

/-- Saving over an order that is not approved. -/
theorem step_putOrder {o : SubscriptionOrder} (hold : ¬OrderApproved s o.id) :
    Step s { s with orders := s.orders.put o } := by
  intro h
  have horder : ∀ id, OrderApproved s id →
      OrderApproved { s with orders := s.orders.put o } id := by
    rintro id ⟨x, hx, happroved⟩
    refine ⟨x, ?_, happroved⟩
    show (s.orders.put o).get id = some x
    rw [Table.get_put_of_ne]
    · exact hx
    · rintro rfl
      exact hold ⟨x, hx, happroved⟩
  exact ⟨⟨fun id r hr happroved => horder _ (h.receipts id r hr happroved),
    fun b hb => horder _ (h.subscriptions b hb), h.once⟩, horder, fun _ hid => hid⟩

/-- Saving a receipt that is not approved, over one that is not. -/
theorem step_putReceipt {r : PaymentReceipt} (hr : r.status ≠ .approved)
    (hold : ¬ReceiptApproved s r.id) : Step s { s with receipts := s.receipts.put r } := by
  intro h
  refine ⟨⟨?_, h.subscriptions, h.once⟩, ⟨fun _ hid => hid, ?_⟩⟩
  · intro id x hx happroved
    have hx' : (s.receipts.put r).get id = some x := hx
    rw [Table.get_put] at hx'
    split at hx'
    · obtain rfl := Option.some.inj hx'
      exact absurd happroved hr
    · exact h.receipts id x hx' happroved
  · rintro id ⟨x, hx, happroved⟩
    refine ⟨x, ?_, happroved⟩
    show (s.receipts.put r).get id = some x
    rw [Table.get_put_of_ne]
    · exact hx
    · rintro rfl
      exact hold ⟨x, hx, happroved⟩

/-- An update of the receipts that are not approved to receipts that are not. -/
theorem step_mapReceipts {f : PaymentReceipt → PaymentReceipt} (hid : ∀ r, (f r).id = r.id)
    (hf : ∀ r, f r = r ∨ (r.status ≠ .approved ∧ (f r).status ≠ .approved)) :
    Step s { s with receipts := s.receipts.map f hid } := by
  intro h
  refine ⟨⟨?_, h.subscriptions, h.once⟩, ⟨fun _ hid => hid, ?_⟩⟩
  · intro id x hx happroved
    have hx' : (s.receipts.map f hid).get id = some x := hx
    rw [Table.get_map] at hx'
    obtain ⟨r, hr, rfl⟩ := Option.map_eq_some_iff.mp hx'
    rcases hf r with hsame | ⟨_, hnot⟩
    · rw [hsame] at happroved ⊢
      exact h.receipts id r hr happroved
    · exact absurd happroved hnot
  · rintro id ⟨r, hr, happroved⟩
    have hsame : f r = r := (hf r).resolve_right fun hnot => hnot.1 happroved
    refine ⟨r, ?_, happroved⟩
    show (s.receipts.map f hid).get id = some r
    rw [Table.get_map, hr, Option.map_some, hsame]

theorem released_status (maxAttempts : ℕ) (r : PaymentReceipt) :
    (r.released maxAttempts).status ≠ .approved := by
  unfold PaymentReceipt.released
  dsimp only
  split <;> simp

theorem step_claimForAnalysis (id : ℕ) : Step s (s.claimForAnalysis id).2 := by
  unfold Store.claimForAnalysis
  split
  · rename_i r hr
    split
    · rename_i hpending
      apply step_putReceipt
      · simp [PaymentReceipt.claimed]
      · rintro ⟨x, hx, happroved⟩
        have hid : r.id = id := Table.key_of_get hr
        rw [show (r.claimed s.clock).id = id from hid, hr] at hx
        obtain rfl := Option.some.inj hx
        rw [hpending] at happroved
        cases happroved
    · exact .refl s
  · exact .refl s

theorem step_releaseFailedAnalysis (id maxAttempts : ℕ) :
    Step s (s.releaseFailedAnalysis id maxAttempts) := by
  unfold Store.releaseFailedAnalysis
  split
  · rename_i r hr
    split
    · rename_i hanalyzing
      apply step_putReceipt (released_status maxAttempts r)
      rintro ⟨x, hx, happroved⟩
      have hid : r.id = id := Table.key_of_get hr
      rw [show (r.released maxAttempts).id = id from hid, hr] at hx
      obtain rfl := Option.some.inj hx
      rw [hanalyzing] at happroved
      cases happroved
    · exact .refl s
  · exact .refl s

theorem step_releaseStaleAnalyses (before : ℤ) (maxAttempts : ℕ) :
    Step s (s.releaseStaleAnalyses before maxAttempts) := by
  apply step_mapReceipts
  intro r
  split
  · rename_i hstale
    right
    refine ⟨?_, released_status maxAttempts r⟩
    intro happroved
    simp [PaymentReceipt.stale, happroved] at hstale
  · exact .inl rfl

end Saves

/-! ### Saves of an analysis or a submission -/

/-- The row an entity was loaded from. -/
def Entity.loadedFrom {α : Type} : Entity α → Option α
  | .created _ => none
  | .loaded a => some a

/-- The receipt and the order an event saves. -/
def savedPair : Event Resp → Option (Entity PaymentReceipt × Entity SubscriptionOrder)
  | .act _ (.saveWithOrder receipt order) _ => some (receipt, order)
  | _ => none

/-- A submission or an analysis saves over neither an approved order nor an approved receipt. -/
def SavesUndecided (_ : List (Event Resp)) (b : Conf Resp SubscriptionError Store)
    (e : Event Resp) : Prop :=
  ∀ pair ∈ savedPair e,
    (∀ o ∈ Entity.loadedFrom pair.2, ∀ row ∈ b.store.orders.get o.id, row.status ≠ .approved) ∧
      ∀ r ∈ Entity.loadedFrom pair.1, ∀ row ∈ b.store.receipts.get r.id, row.status ≠ .approved

instance (tr : List (Event Resp)) (b : Conf Resp SubscriptionError Store) (e : Event Resp) :
    Decidable (SavesUndecided tr b e) :=
  inferInstanceAs (Decidable (∀ pair ∈ savedPair e,
    (∀ o ∈ Entity.loadedFrom pair.2, ∀ row ∈ b.store.orders.get o.id, row.status ≠ .approved) ∧
      ∀ r ∈ Entity.loadedFrom pair.1, ∀ row ∈ b.store.receipts.get r.id, row.status ≠ .approved))

section SaveWithOrder

variable {s : Store} {receipt : Entity PaymentReceipt} {order : Entity SubscriptionOrder}

/-- A new order has an id no order has. -/
theorem not_approved_savedOrderId
    (hold : ∀ o ∈ Entity.loadedFrom order, ∀ row ∈ s.orders.get o.id, row.status ≠ .approved) :
    ¬OrderApproved s (s.savedOrderId order) := by
  rintro ⟨x, hx, happroved⟩
  cases order with
  | created o =>
      rw [show s.savedOrderId (.created o) = s.orders.fresh from rfl, Table.get_fresh] at hx
      cases hx
  | loaded o => exact hold o rfl x hx happroved

theorem not_approved_storedReceipt {orderId : ℕ}
    (hold : ∀ r ∈ Entity.loadedFrom receipt, ∀ row ∈ s.receipts.get r.id, row.status ≠ .approved) :
    ¬ReceiptApproved s (s.storedReceipt orderId receipt).id := by
  rintro ⟨x, hx, happroved⟩
  cases receipt with
  | created r =>
      rw [show (s.storedReceipt orderId (.created r)).id = s.receipts.fresh from rfl,
        Table.get_fresh] at hx
      cases hx
  | loaded r => exact hold r rfl x hx happroved

theorem storedReceipt_status (orderId : ℕ) :
    (s.storedReceipt orderId receipt).status = receipt.value.status := by
  cases receipt <;> rfl

/-- A save of a receipt that is not approved, over what is not approved. -/
theorem step_saveWithOrder (hr : receipt.value.status ≠ .approved)
    (holdOrder : ∀ o ∈ Entity.loadedFrom order, ∀ row ∈ s.orders.get o.id, row.status ≠ .approved)
    (holdReceipt : ∀ r ∈ Entity.loadedFrom receipt,
      ∀ row ∈ s.receipts.get r.id, row.status ≠ .approved) :
    Step s (s.saveWithOrder receipt order).2 := by
  have hfirst := step_putOrder (s := s) (o := { order.value with id := s.savedOrderId order })
    (not_approved_savedOrderId holdOrder)
  refine hfirst.trans ?_
  apply step_putReceipt (s := { s with orders := _ })
  · rw [storedReceipt_status]
    exact hr
  · exact not_approved_storedReceipt holdReceipt

end SaveWithOrder

/-! ### Transactions -/

/-- **An approval**: the order was not approved, so it had no subscription. -/
theorem step_approvedAlone {s : Store} {orderId receiptId adminUserId userId : ℕ}
    {o : SubscriptionOrder} {r : PaymentReceipt} {a : Approval}
    (ha : Approves s orderId receiptId adminUserId o r a userId) :
    Step s (approvedAlone s a userId) := by
  intro h
  have hid : o.id = orderId := Table.key_of_get ha.order
  have hrid : r.id = receiptId := Table.key_of_get ha.receipt
  have haid : a.order.id = orderId := by
    rw [ha.savedOrder]
    exact hid
  have hnew : ¬OrderApproved s orderId := by
    rintro ⟨x, hx, happroved⟩
    rw [ha.order] at hx
    obtain rfl := Option.some.inj hx
    exact ha.undecided.1 happroved
  have hsaved : s.savedReceipt a.receipt a.seen = a.receipt := by
    rw [ha.seen, ha.savedReceipt]
    apply savedReceipt_seen
    rw [show (PaymentReceipt.approvedBy adminUserId s.clock r).id = receiptId from hrid]
    exact ha.receipt
  have horders : (approvedAlone s a userId).orders =
      s.orders.put (a.orderFor userId) := rfl
  have hreceipts : (approvedAlone s a userId).receipts = s.receipts.put a.receipt := by
    show s.receipts.put (s.savedReceipt a.receipt a.seen) = _
    rw [hsaved]
  have hthis : OrderApproved (approvedAlone s a userId) orderId := by
    refine ⟨a.orderFor userId, ?_, ?_⟩
    · rw [horders, ← haid]
      exact Table.get_put_self s.orders (a.orderFor userId)
    · show a.order.status = .approved
      rw [ha.savedOrder]
      rfl
  have horder : ∀ id, OrderApproved s id → OrderApproved (approvedAlone s a userId) id := by
    intro id hold
    have hne : id ≠ a.order.id := by
      rintro rfl
      rw [haid] at hold
      exact hnew hold
    obtain ⟨x, hx, happroved⟩ := hold
    refine ⟨x, ?_, happroved⟩
    rw [horders, Table.get_put_of_ne (a := a.orderFor userId) hne]
    exact hx
  have hsubs : ∀ b, b ∈ (approvedAlone s a userId).subscriptions.rows →
      b = s.newSubscription a userId ∨ b ∈ s.subscriptions.rows := by
    intro b hb
    rcases Table.mem_put.mp hb with rfl | hb
    · exact .inl rfl
    · exact .inr hb.2
  refine ⟨⟨?_, ?_, ?_⟩, ⟨horder, ?_⟩⟩
  · intro id x hx happroved
    rw [hreceipts, Table.get_put] at hx
    split at hx
    · obtain rfl := Option.some.inj hx
      rw [ha.savedReceipt]
      rw [show (PaymentReceipt.approvedBy adminUserId s.clock r).orderId = orderId from ha.own]
      exact hthis
    · exact horder _ (h.receipts id x hx happroved)
  · intro b hb
    rcases hsubs b hb with rfl | hb
    · rw [show (s.newSubscription a userId).orderId = orderId from haid]
      exact hthis
    · exact horder _ (h.subscriptions b hb)
  · -- a subscription of this order from before would have its order approved
    have hno : ∀ b ∈ s.subscriptions.rows, b.orderId ≠ a.order.id := by
      intro b hb heq
      have happroved := h.subscriptions b hb
      rw [heq, haid] at happroved
      exact hnew happroved
    intro b hb b' hb' heq
    rcases hsubs b hb with rfl | hb
    · rcases hsubs b' hb' with rfl | hb'
      · rfl
      · exact absurd heq.symm (hno b' hb')
    · rcases hsubs b' hb' with rfl | hb'
      · exact absurd heq (hno b hb)
      · exact h.once b hb b' hb' heq
  · rintro id ⟨x, hx, happroved⟩
    refine ⟨x, ?_, happroved⟩
    rw [hreceipts, Table.get_put_of_ne]
    · exact hx
    · rintro rfl
      rw [ha.savedReceipt, show (PaymentReceipt.approvedBy adminUserId s.clock r).id = receiptId
        from hrid, ha.receipt] at hx
      obtain rfl := Option.some.inj hx
      exact ha.unapproved happroved

/-- **A rejection**: an approved receipt would have its order approved. -/
theorem step_rejectedAlone {s : Store} {orderId receiptId adminUserId : ℕ} {reason : String}
    {o : SubscriptionOrder} {r : PaymentReceipt} (hr : Rejects s orderId receiptId o r) :
    Step s (rejectedAlone s adminUserId reason o r) := by
  have hid : o.id = orderId := Table.key_of_get hr.order
  have hrid : r.id = receiptId := Table.key_of_get hr.receipt
  have hnew : ¬OrderApproved s orderId := by
    rintro ⟨x, hx, happroved⟩
    rw [hr.order] at hx
    obtain rfl := Option.some.inj hx
    exact hr.unapproved happroved
  intro h
  have hreceipt : ¬ReceiptApproved s r.id := by
    rintro ⟨x, hx, happroved⟩
    rw [hrid, hr.receipt] at hx
    obtain rfl := Option.some.inj hx
    have horder := h.receipts receiptId r hr.receipt happroved
    rw [hr.own] at horder
    exact hnew horder
  have hfirst : Step s { s with
      receipts := s.receipts.put (PaymentReceipt.rejectedBy adminUserId reason s.clock r) } :=
    step_putReceipt (by simp [PaymentReceipt.rejectedBy]) hreceipt
  refine hfirst.trans ?_ h
  apply step_putOrder (s := { s with receipts := _ })
  rw [show (SubscriptionOrder.rejectedFor reason s.clock o).id = orderId from hid]
  exact hnew

/-! ### What the services save -/

/-- Outside the two transactions no receipt is saved as approved. -/
def Undecided : SubscriptionCmd → Prop
  | .saveWithOrder receipt _ => receipt.value.status ≠ .approved
  | .commitApproval _ => False
  | .commitRejection _ => False
  | _ => True

section Discipline

variable {α : Type}

/-- The program keeps to `Undecided`, whatever it is answered. -/
def Disciplined (p : Billing α) : Prop :=
  p.Within Undecided (fun _ _ => True) (fun _ => True)

@[simp] theorem within_issue (c : SubscriptionCmd) {post : (c : SubscriptionCmd) → Resp c → Prop}
    {Q : Resp c → Prop} :
    Prog.Within (α := no_index (Resp c)) Undecided post (issue c) Q ↔
      Undecided c ∧ ∀ r, post c r → Q r := Iff.rfl

@[simp] theorem within_dateNow {post : (c : SubscriptionCmd) → Resp c → Prop} {Q : ℤ → Prop} :
    dateNow.Within Undecided post Q ↔ ∀ now, post SubscriptionCmd.now now → Q now :=
  ⟨fun h => h.2, fun h => ⟨trivial, h⟩⟩

theorem Disciplined.bind {β : Type} {p : Billing α} {f : α → Billing β} (hp : Disciplined p)
    (hf : ∀ a, Disciplined (f a)) : Disciplined (p >>= f) :=
  (within_bind _ _).mpr (within_mono hp fun a _ => hf a)

theorem disciplined_orderToPay (params : SubmitPaymentReceiptParams) :
    Disciplined (orderToPay params) := by
  unfold orderToPay
  split <;> simp [Disciplined, buildOrder, Undecided]

theorem disciplined_submitReceipt (params : SubmitPaymentReceiptParams) :
    Disciplined (submitReceipt params) := by
  simp only [Disciplined, submitReceipt, within_bind, within_refuseIf, within_issue]
  intro _ _
  apply within_mono (disciplined_orderToPay params)
  intro order _ _
  exact ⟨by simp [Undecided, Entity.value, PaymentReceipt.submitted], fun _ _ => trivial⟩

theorem disciplined_isDuplicate (receiptId : ℕ) (code : Option TrackingCode) :
    Disciplined (isDuplicate receiptId code) := by
  cases code <;> simp [Disciplined, isDuplicate, Undecided]

theorem disciplined_analyzeClaimed (receipt : PaymentReceipt) :
    Disciplined (analyzeClaimed receipt) := by
  simp only [Disciplined, analyzeClaimed, within_bind, within_issue, within_orThrow]
  refine ⟨trivial, fun _ _ order _ => ⟨trivial, fun _ _ result _ => ?_⟩⟩
  apply within_mono (disciplined_isDuplicate receipt.id result.trackingCode)
  intro duplicate _
  simp [Undecided, Entity.value, PaymentReceipt.analyzedAs]

theorem disciplined_analyzeReceipt (receiptId : ℕ) : Disciplined (analyzeReceipt receiptId) := by
  simp only [Disciplined, analyzeReceipt, within_bind, within_issue, within_orThrow]
  refine ⟨trivial, fun _ _ receipt _ => ?_⟩
  split
  · exact disciplined_analyzeClaimed receipt
  · trivial

theorem disciplined_processReceipt (cfg : AnalysisConfig) (receiptId : ℕ) :
    Disciplined (processReceipt cfg receiptId) := by
  simp only [Disciplined, processReceipt, within_bind, within_issue]
  refine ⟨trivial, fun claimed _ => ?_⟩
  split
  · apply Disciplined.bind (within_attempt (disciplined_analyzeReceipt receiptId) fun _ => trivial)
    intro outcome
    cases outcome with
    | ok _ => trivial
    | error _ => exact ⟨trivial, fun _ _ => trivial⟩
  · trivial

theorem disciplined_tick (cfg : AnalysisConfig) : Disciplined (tick cfg) := by
  simp only [Disciplined, tick, within_bind, within_dateNow, within_issue]
  refine fun _ _ => ⟨trivial, fun _ _ => ⟨trivial, fun ids _ => ?_⟩⟩
  exact within_forEach (fun id _ => disciplined_processReceipt cfg id) trivial

/-- **What is saved outside a transaction is never approved.** -/
theorem disciplined_paymentProgram (zone : Zone) (cfg : AnalysisConfig) (call : PaymentCall)
    (s : Store) : Disciplined (paymentProgram zone cfg call s).1 := by
  cases call with
  | submitReceipt params =>
      apply Disciplined.bind (disciplined_submitReceipt params)
      intro _
      trivial
  | processReceipt id => exact disciplined_processReceipt cfg id
  | releaseStaleAnalyses before => exact ⟨trivial, fun _ _ => trivial⟩
  | tick => exact disciplined_tick cfg
  | approveOrder orderId receiptId adminUserId => trivial
  | rejectReceipt orderId receiptId adminUserId reason => trivial

end Discipline

/-! ### Every run -/

section Run

variable {zone : Zone} {cfg : AnalysisConfig} {s₀ : Store}

/-- A call that starts: nothing changes, or a whole transaction happens. -/
theorem step_begin (call : PaymentCall) (s : Store) : Step s (paymentProgram zone cfg call s).2 := by
  cases call with
  | approveOrder orderId receiptId adminUserId =>
      refine After.store (P := fun s' => Step s s') (after_mono (after_approveOrder zone) ?_ ?_)
      · rintro _ s' ⟨o, r, a, userId, ha, rfl⟩
        exact step_approvedAlone ha
      · rintro s' rfl
        exact .refl _
  | rejectReceipt orderId receiptId adminUserId reason =>
      refine After.store (P := fun s' => Step s s') (after_mono (after_rejectReceipt reason) ?_ ?_)
      · rintro _ s' ⟨o, r, hr, rfl⟩
        exact step_rejectedAlone hr
      · rintro s' rfl
        exact .refl _
  | _ => exact .refl s

/-- One command of a disciplined program. -/
theorem step_exec {w : World} {c : SubscriptionCmd} {tr : List (Event Resp)} {pid : ℕ}
    {b : Conf Resp SubscriptionError Store} {r : Resp c} (hc : Undecided c)
    (hok : SavesUndecided tr b (.act pid c r)) : Step b.store (exec w c b.store).2 := by
  cases c with
  | saveWithOrder receipt order =>
      obtain ⟨horder, hreceipt⟩ := hok (receipt, order) rfl
      exact step_saveWithOrder hc horder hreceipt
  | claimForAnalysis id => exact step_claimForAnalysis id
  | releaseFailedAnalysis id maxAttempts => exact step_releaseFailedAnalysis id maxAttempts
  | releaseStaleAnalyses before maxAttempts => exact step_releaseStaleAnalyses before maxAttempts
  | commitApproval a => exact hc.elim
  | commitRejection r => exact hc.elim
  | commitBonus bonus =>
      refine .of_eq ?_ ?_ ?_ <;> simp only [exec, Store.commitBonus] <;> split <;> rfl
  | _ => exact .of_eq rfl rfl rfl

/-- One step of a run. -/
theorem step_machine {tr : List (Event Resp)} {b c : Conf Resp SubscriptionError Store}
    {l : (paymentMachine zone cfg).Label} {e : Event Resp} (hin : ∀ p ∈ b.pool, Disciplined p)
    (hs : (paymentMachine zone cfg).step b l = some (e, c)) (hok : SavesUndecided tr b e) :
    Step b.store c.store := by
  rcases Machine.step_cases hin hs with ⟨passed, ho, rfl⟩ | ⟨call, p, hb, rfl⟩ |
    ⟨pid, w, cmd, r, hc, hx, rfl⟩
  · rw [← Option.some.inj ho]
    exact .of_eq rfl rfl rfl
  · have hstore : (paymentProgram zone cfg call b.store).2 = c.store :=
      congrArg Prod.snd (Option.some.inj hb)
    rw [← hstore]
    exact step_begin call b.store
  · have hstore : (exec w cmd b.store).2 = c.store := congrArg Prod.snd (Option.some.inj hx)
    rw [← hstore]
    exact step_exec hc hok

/-- In every such run the programs stay disciplined and the store `Paid`. -/
theorem paid_run {tr : List (Event Resp)} {b : Conf Resp SubscriptionError Store} (h₀ : Paid s₀)
    (h : (paymentMachine zone cfg).Run SavesUndecided (.start s₀) tr b) :
    Paid b.store ∧ ∀ p ∈ b.pool, Disciplined p := by
  refine Machine.Run.invariant (fun _ b => Paid b.store ∧ ∀ p ∈ b.pool, Disciplined p) ?_ ?_ h
  · refine ⟨h₀, fun p hp => ?_⟩
    simp [Conf.start] at hp
  · rintro tr b l e c _ ⟨hpaid, hin⟩ hs hok
    refine ⟨(step_machine hin hs hok hpaid).1, Machine.step_within ?_ (fun _ _ _ _ _ _ => trivial) hin hs⟩
    intro call s p s' hb
    obtain rfl : (paymentProgram zone cfg call s).1 = p := congrArg Prod.fst (Option.some.inj hb)
    exact disciplined_paymentProgram zone cfg call s

theorem length_ofOrder_le_one {s : Store} (h : Paid s) (orderId : ℕ) :
    (s.subscriptions.rows.filter fun b => b.orderId = orderId).length ≤ 1 := by
  apply Table.length_filter_le_one
  intro b hb horder b' hb' horder'
  rw [decide_eq_true_eq] at horder horder'
  exact h.once b hb b' hb' (horder.trans horder'.symm)

/-- **One payment, one subscription.**  From a store whose approvals belong together, in every run in
which no submission and no analysis saves over an approved order or receipt: what is approved stays
approved, and no order ever has two subscriptions. -/
theorem payment_once (zone : Zone) (cfg : AnalysisConfig) (h₀ : Paid s₀)
    {x y : List (Event Resp) × Conf Resp SubscriptionError Store}
    (hx : (paymentMachine zone cfg).Run SavesUndecided (.start s₀) x.1 x.2)
    (hxy : (paymentMachine zone cfg).Later SavesUndecided x y) :
    (∀ id, OrderApproved x.2.store id → OrderApproved y.2.store id) ∧
      (∀ id, ReceiptApproved x.2.store id → ReceiptApproved y.2.store id) ∧
      ∀ orderId, (y.2.store.subscriptions.rows.filter fun b => b.orderId = orderId).length ≤ 1 := by
  have hkept : Kept x.2.store y.2.store := by
    refine Machine.Run.relates (fun b c => Kept b.store c.store) (fun b => Kept.refl b.store) ?_ hx hxy
    intro tr b l e c b₀ hrun hs hok hbefore
    obtain ⟨hpaid, hin⟩ := paid_run h₀ hrun
    exact hbefore.trans (step_machine hin hs hok hpaid).2
  refine ⟨hkept.orders, hkept.receipts, ?_⟩
  exact length_ofOrder_le_one (paid_run h₀ (hx.later hxy)).1

end Run

/-! ### A run of each kind -/

/-- An order of the plan 1, paid for and waiting. -/
def paidOrder : SubscriptionOrder where
  id := 1
  provider := .bale
  providerUserId := "bale:1"
  phoneNumber := "09120000000"
  accountType := .driver
  subscriptionPlanId := 1
  amount := 500000
  currency := "IRT"
  status := .receiptSubmitted
  createdUserId := none
  approvedAt := none
  approvedByUserId := none
  rejectedAt := none
  rejectionReason := none

/-- Its receipt, not analyzed yet. -/
def paidReceipt : PaymentReceipt :=
  { PaymentReceipt.submitted "receipts/1.jpg" none with id := 1, orderId := 1 }

/-- A known driver has paid for one order. -/
def paidStore : Store :=
  { Store.empty 1000 with
    orders := Table.empty.put paidOrder
    receipts := Table.empty.put paidReceipt
    plans := Table.empty.put ⟨1, .driver, 30, 500000, "IRT"⟩
    users := Table.empty.put ⟨7, "09120000000", some "09120000000", true⟩
    roles := Table.empty.put ⟨1, "DRIVER", true⟩
    botLinks := Table.empty.put ⟨"bale:1", 7⟩ }

theorem paid_paidStore : Paid paidStore := by
  refine ⟨?_, ?_, ?_⟩
  · intro id r hr happroved
    rw [show paidStore.receipts = Table.empty.put paidReceipt from rfl, Table.get_put] at hr
    split at hr
    · obtain rfl := Option.some.inj hr
      cases happroved
    · cases hr
  · intro b hb
    cases hb
  · intro b hb
    cases hb

instance (s : Store) (id : ℕ) : Decidable (OrderApproved s id) :=
  decidable_of_iff ((s.orders.get id).map (·.status) = some .approved) Option.map_eq_some_iff

instance (s : Store) (id : ℕ) : Decidable (ReceiptApproved s id) :=
  decidable_of_iff ((s.receipts.get id).map (·.status) = some .approved) Option.map_eq_some_iff

/-- Five attempts, ten minutes. -/
def fiveAttempts : AnalysisConfig := ⟨5, 600000⟩

/-- The tracking code of its slip. -/
def slipCode : TrackingCode := ⟨"A1", by decide⟩

/-- The model read the whole slip. -/
def readSlip : World := ⟨some ⟨some 5000000, some slipCode⟩, []⟩

/-- `n` statements of call `pid`. -/
def steps (pid n : ℕ) : List (paymentMachine .utc fiveAttempts).Label :=
  List.replicate n (.act pid readSlip)

/-- The analysis is over before the approval. -/
def analyzedFirst : List (paymentMachine .utc fiveAttempts).Label :=
  [[.start (.processReceipt 1)], steps 0 7, [.start (.approveOrder 1 1 9)]].flatten

/-- The next sweep. -/
def sweep : List (paymentMachine .utc fiveAttempts).Label :=
  [[.outside (700000 : ℕ), .start .tick], steps 2 3].flatten

theorem payment_once_analyzed_first :
    Paid paidStore ∧ ∃ x y, (paymentMachine .utc fiveAttempts).Run SavesUndecided (.start paidStore)
      x.1 x.2 ∧ (paymentMachine .utc fiveAttempts).Later SavesUndecided x y ∧
      OrderApproved x.2.store 1 ∧ OrderApproved y.2.store 1 ∧
      (y.2.store.subscriptions.rows.filter fun b => b.orderId = 1).length ≤ 1 := by
  have hx : ((paymentMachine .utc fiveAttempts).play SavesUndecided [] (.start paidStore)
      analyzedFirst).any (fun x => OrderApproved x.2.store 1 ∧
        ((paymentMachine .utc fiveAttempts).play SavesUndecided x.1 x.2 sweep).isSome) = true := by
    decide
  simp only [Option.any_eq_true, decide_eq_true_eq, Option.isSome_iff_exists] at hx
  obtain ⟨⟨tr, b⟩, hrun, happroved, ⟨tr', b'⟩, hlater⟩ := hx
  have hrun' := Machine.play_run .nil hrun
  have hlater' := Machine.play_later hlater
  obtain ⟨horders, _, honce⟩ := payment_once .utc fiveAttempts paid_paidStore (x := (tr, b))
    (y := (tr', b')) hrun' hlater'
  exact ⟨paid_paidStore, (tr, b), (tr', b'), hrun', hlater', happroved, horders 1 happroved,
    honce 1⟩

/-- The analysis has loaded receipt and order; then the admin approves. -/
def approvedMeanwhile : List (paymentMachine .utc fiveAttempts).Label :=
  [[.start (.processReceipt 1)], steps 0 3, [.start (.approveOrder 1 1 9)]].flatten

/-- The model answers, the analysis saves. -/
def analysisEnds : List (paymentMachine .utc fiveAttempts).Label := steps 0 4

/-- The admin finds the order under review and approves it again. -/
def approvedAgain : List (paymentMachine .utc fiveAttempts).Label := [.start (.approveOrder 1 1 9)]

/-- The save of an analysis that was under way undoes an approval, and the order is subscribed
twice. -/
theorem analysis_undoes_approval :
    Paid paidStore ∧ ∃ x y z, (paymentMachine .utc fiveAttempts).Run (fun _ _ _ => True)
      (.start paidStore) x.1 x.2 ∧
      (paymentMachine .utc fiveAttempts).Later (fun _ _ _ => True) x y ∧
      (paymentMachine .utc fiveAttempts).Later (fun _ _ _ => True) y z ∧
      OrderApproved x.2.store 1 ∧ ReceiptApproved x.2.store 1 ∧
      ¬OrderApproved y.2.store 1 ∧ ¬ReceiptApproved y.2.store 1 ∧
      (z.2.store.subscriptions.rows.filter fun b => b.orderId = 1).length = 2 := by
  have hx : ((paymentMachine .utc fiveAttempts).play (fun _ _ _ => True) [] (.start paidStore)
      approvedMeanwhile).any (fun x => OrderApproved x.2.store 1 ∧ ReceiptApproved x.2.store 1 ∧
        ((paymentMachine .utc fiveAttempts).play (fun _ _ _ => True) x.1 x.2
          analysisEnds).any (fun y => ¬OrderApproved y.2.store 1 ∧ ¬ReceiptApproved y.2.store 1 ∧
            ((paymentMachine .utc fiveAttempts).play (fun _ _ _ => True) y.1 y.2
              approvedAgain).any (fun z =>
                (z.2.store.subscriptions.rows.filter fun b => b.orderId = 1).length = 2) = true)
          = true) = true := by
    decide
  simp only [Option.any_eq_true, decide_eq_true_eq] at hx
  obtain ⟨⟨tr, b⟩, hrun, horder, hreceipt, ⟨tr', b'⟩, hend, horder', hreceipt', ⟨tr'', b''⟩, hagain,
    htwo⟩ := hx
  exact ⟨paid_paidStore, (tr, b), (tr', b'), (tr'', b''), Machine.play_run .nil hrun,
    Machine.play_later hend, Machine.play_later hagain, horder, hreceipt, horder', hreceipt', htwo⟩

end TransportBackend.PaymentOnce
