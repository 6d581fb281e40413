import TransportBackend.MonitoredProgram
import TransportBackend.PaymentOnce

/-!
# A tracking code pays once

Approvals statement by statement, under `READ COMMITTED`: each holds the row of its own order, so two
approvals of one order wait for each other, but two orders paid with the same slip do not.  Each
approval looks for an approved receipt with its tracking code in one statement and makes its own
receipt approved in a later one.

* `Hand` — the receipt a transaction has read and whether its code was looked for, read off the
  statements of the call (`handMonitor`);
* `accepts_codeProgram` — an approval commits the receipt it holds, after the look-up;
* `code_pays_once` — **no two approved receipts share a tracking code**, in every run in which an
  approval commits only while no other holds a checked receipt with the same code, and no analysis
  saves a receipt that a transaction in progress has read.
-/

namespace TransportBackend.TrackingCodes

open TransportBackend.AtomicProgram
open TransportBackend.AtomicProgram.Prog
open TransportBackend.InterleavedRun
open TransportBackend.KeyedTable
open TransportBackend.MonitoredProgram
open TransportBackend.SubscriptionStore
open TransportBackend.SubscriptionService
open TransportBackend.SubscriptionEffect
open TransportBackend.PaymentOnce

/-! ### The calls -/

/-- What a call runs, statement by statement. -/
def codeProgram (zone : Zone) (cfg : AnalysisConfig) : PaymentCall → Billing Unit
  | .submitReceipt params => unanswered (submitReceipt params)
  | .processReceipt id => processReceipt cfg id
  | .releaseStaleAnalyses before => issue (.releaseStaleAnalyses before cfg.maxAnalysisAttempts)
  | .tick => tick cfg
  | .approveOrder orderId receiptId adminUserId =>
      unanswered (approveOrder zone orderId receiptId adminUserId)
  | .rejectReceipt orderId receiptId adminUserId reason =>
      rejectReceipt orderId receiptId adminUserId reason

/-- Any number of these calls on one store; a statement that waits for a lock is not executed. -/
def codeMachine (zone : Zone) (cfg : AnalysisConfig) : Machine Resp SubscriptionError Store where
  Choice := World
  Outside := ℕ
  Call := PaymentCall
  exec w c s := if blocked c s then none else some (exec w c s)
  outside passed s := some { s with clock := s.clock + passed }
  begin call s := some (codeProgram zone cfg call, s)

/-! ### What a transaction has in hand -/

/-- The receipt a transaction has read, and whether no approved receipt had its code. -/
inductive Hand where
  | idle
  | holding (receipt : PaymentReceipt) (checked : Bool)
  deriving DecidableEq

/-- The receipt read. -/
def Hand.receipt : Hand → Option PaymentReceipt
  | .idle => none
  | .holding r _ => some r

/-- The receipt read, once its code was looked for. -/
def Hand.checked : Hand → Option PaymentReceipt
  | .holding r true => some r
  | _ => none

/-- Reading a receipt takes it in hand; one without a code needs no look-up. -/
def takes : Option PaymentReceipt → Hand → Hand
  | some r, _ => .holding r r.trackingCode.isNone
  | none, q => q

/-- A look-up that found nothing. -/
def lookedFor (code : TrackingCode) (id : ℕ) : Option PaymentReceipt → Hand → Hand
  | none, .holding r checked =>
      .holding r (checked || (r.trackingCode = some code && r.id = id))
  | _, q => q

/-- Where a statement and its answer lead. -/
def handNext (q : Hand) : (c : SubscriptionCmd) → Resp c → Hand
  | .findOneReceipt _, found => takes found q
  | .findApprovedTwin code id, twin => lookedFor code id twin q
  | .commitApproval _, _ => .idle
  | .commitRejection _, _ => .idle
  | .rollback _, _ => .idle
  | _, _ => q

/-- The receipt saved is the one in hand, with the code it was read with. -/
def SameSlip (r entity : PaymentReceipt) : Prop :=
  entity.id = r.id ∧ entity.trackingCode = r.trackingCode

/-- A transaction commits the receipt in its hand, an approval only after the look-up. -/
def handAllowed (q : Hand) : SubscriptionCmd → Prop
  | .commitApproval a => ∃ r, q = .holding r true ∧ SameSlip r a.receipt
  | .commitRejection x => (∃ r b, q = .holding r b ∧ SameSlip r x.receipt) ∧
      x.receipt.status = .rejected
  | .saveWithOrder receipt _ => receipt.value.status ≠ .approved
  | _ => True

/-- The monitor of one call. -/
def handMonitor : Monitor Resp Hand where
  allowed := handAllowed
  answers _ _ _ := True
  next := handNext

/-! ### Every call keeps to it -/

section Accepts

variable {α : Type} {q : Hand}

theorem accepts_issue (c : SubscriptionCmd) {Q : Except SubscriptionError (Resp c) → Hand → Prop} :
    Accepts (α := no_index (Resp c)) handMonitor (issue c) q Q ↔
      handAllowed q c ∧ ∀ r, Q (.ok r) (handNext q c r) := by
  constructor
  · exact fun h => ⟨h.1, fun r => h.2 r trivial⟩
  · exact fun h => ⟨h.1, fun r _ => h.2 r⟩

theorem unseen_of_looksUp {p : Billing α} (h : LooksUp p) : Unseen handMonitor p := by
  apply keeps_of_within _ h
  intro c hc q
  cases c <;> first | exact hc.elim | exact ⟨trivial, fun _ _ => rfl⟩

theorem unseen_lockForApproval (id : ℕ) : Unseen handMonitor (lockForApproval id) := by
  intro q
  simp only [lockForApproval, accepts_bind, accepts_issue, accepts_orThrow, accepts_refuseIf,
    accepts_pure, outcome_ok, outcome_error]
  refine ⟨trivial, fun found => ⟨fun _ => rfl, fun locked _ => ⟨fun _ => rfl, fun _ => ?_⟩⟩⟩
  exact ⟨fun _ => rfl, fun _ => rfl⟩

/-- The rule of `transaction`: whatever was thrown, the rollback is allowed. -/
theorem accepts_transaction {orderId : ℕ} {body : Billing α}
    (h : Accepts handMonitor body q (fun _ _ => True)) :
    Accepts handMonitor (transaction orderId body) q (fun _ _ => True) := by
  simp only [transaction, accepts_bind, accepts_attempt]
  apply accepts_mono h
  intro out q' _
  cases out with
  | ok a => trivial
  | error e => exact ⟨trivial, fun _ _ => trivial⟩

/-- The rest of a program, when nothing is asked of how its first part fails. -/
theorem accepts_then {β : Type} {p : Billing α} {f : α → Billing β} {P : α → Hand → Prop}
    (h : Accepts handMonitor p q (outcome P (fun _ _ => True)))
    (hf : ∀ a q', P a q' → Accepts handMonitor (f a) q' (fun _ _ => True)) :
    Accepts handMonitor (p >>= f) q (fun _ _ => True) := by
  rw [accepts_bind]
  apply accepts_mono h
  intro out q' hout
  cases out with
  | ok a => exact hf a q' hout
  | error e => trivial

theorem accepts_then_unseen {β : Type} {p : Billing α} {f : α → Billing β}
    (h : Unseen handMonitor p) (hf : ∀ a, Accepts handMonitor (f a) q (fun _ _ => True)) :
    Accepts handMonitor (p >>= f) q (fun _ _ => True) := by
  apply accepts_then (P := fun _ q' => q' = q)
  · apply h.accepts
    intro out
    cases out with
    | ok a => rfl
    | error e => trivial
  · rintro a q' rfl
    exact hf a

theorem accepts_ownReceipt (o : SubscriptionOrder) (id : ℕ) :
    Accepts handMonitor (ownReceipt o id) q
      (outcome (fun r q' => q' = .holding r r.trackingCode.isNone) (fun _ _ => True)) := by
  simp only [ownReceipt, accepts_bind, accepts_issue, accepts_orThrow, accepts_refuseIf,
    accepts_pure, outcome_ok, outcome_error]
  refine ⟨trivial, fun found => ⟨fun _ => trivial, fun r hr => ⟨fun _ => trivial, fun _ => ?_⟩⟩⟩
  rw [hr]
  rfl

theorem accepts_refuseTwin {r : PaymentReceipt} :
    Accepts handMonitor (refuseTwin r) (.holding r r.trackingCode.isNone)
      (outcome (fun _ q' => q' = .holding r true) (fun _ _ => True)) := by
  unfold refuseTwin
  cases hcode : r.trackingCode with
  | none => rfl
  | some code =>
      simp only [accepts_bind, accepts_issue, accepts_refuseIf, outcome_ok, outcome_error]
      refine ⟨trivial, fun twin => ⟨fun _ => trivial, fun hnone => ?_⟩⟩
      obtain rfl : twin = none := Option.not_isSome_iff_eq_none.mp hnone
      show Hand.holding r (_ || (decide (r.trackingCode = some code) && decide (r.id = r.id))) = _
      simp [hcode]

theorem accepts_approveOrder (zone : Zone) (orderId receiptId adminUserId : ℕ) :
    Accepts handMonitor (approveOrder zone orderId receiptId adminUserId) q (fun _ _ => True) := by
  apply accepts_transaction
  apply accepts_then_unseen (unseen_lockForApproval orderId)
  intro locked
  apply accepts_then (accepts_ownReceipt locked.1 receiptId)
  rintro r q' rfl
  apply accepts_then_unseen (unseen_of_looksUp (looksUp_refuseDecided r))
  intro _
  apply accepts_then accepts_refuseTwin
  rintro _ q' rfl
  apply accepts_then_unseen (unseen_of_looksUp (looksUp_resolveBuyer locked.1))
  intro resolved
  apply accepts_then_unseen (unseen_of_looksUp (looksUp_lacksRole _ _))
  intro addRole
  apply accepts_then_unseen (unseen_of_looksUp (looksUp_planOf _ _))
  intro plan
  apply accepts_then_unseen (unseen_of_looksUp (looksUp_startDate _))
  intro startAt
  -- the clock, the row `save` reads again, and the commit of the receipt in hand
  refine ⟨trivial, fun now _ => ⟨trivial, fun seen _ => ⟨⟨r, rfl, rfl, rfl⟩, fun saved _ => ?_⟩⟩⟩
  cases saved with
  | none => trivial
  | some ids => trivial

theorem accepts_rejectReceipt (orderId receiptId adminUserId : ℕ) (reason : String) :
    Accepts handMonitor (rejectReceipt orderId receiptId adminUserId reason) q (fun _ _ => True) := by
  apply accepts_transaction
  simp only [accepts_bind, accepts_issue, accepts_orThrow, accepts_refuseIf, outcome_ok,
    outcome_error]
  refine ⟨trivial, fun found => ⟨fun _ => trivial, fun locked _ => ⟨fun _ => trivial, fun _ => ?_⟩⟩⟩
  apply accepts_mono (accepts_ownReceipt locked.1 receiptId)
  intro out q' hout
  cases out with
  | error e => trivial
  | ok r =>
      obtain rfl := hout
      exact ⟨trivial, fun now _ => ⟨trivial, fun seen => ⟨⟨⟨r, _, rfl, rfl, rfl⟩, rfl⟩,
        fun _ => trivial⟩⟩⟩

/-- Programs that save no approved receipt are accepted from anywhere. -/
theorem accepts_of_disciplined {p : Billing Unit} (h : Disciplined p) :
    Accepts handMonitor p q (fun _ _ => True) := by
  have hkeeps : Keeps handMonitor (fun _ => ()) p := by
    apply keeps_of_within _ h
    intro c hc q
    cases c <;> first | exact hc.elim | exact ⟨trivial, fun _ _ => rfl⟩ | exact ⟨hc, fun _ _ => rfl⟩
  exact hkeeps.accepts fun _ _ _ => trivial

/-- **Every call commits what it has in hand.** -/
theorem accepts_codeProgram (zone : Zone) (cfg : AnalysisConfig) (call : PaymentCall) :
    Accepts handMonitor (codeProgram zone cfg call) .idle (fun _ _ => True) := by
  cases call with
  | submitReceipt params =>
      exact accepts_of_disciplined (disciplined_paymentProgram zone cfg (.submitReceipt params)
        (Store.empty 0))
  | processReceipt id => exact accepts_of_disciplined (disciplined_processReceipt cfg id)
  | releaseStaleAnalyses before => exact ⟨trivial, fun _ _ => trivial⟩
  | tick => exact accepts_of_disciplined (disciplined_tick cfg)
  | approveOrder orderId receiptId adminUserId =>
      simp only [codeProgram, unanswered, accepts_bind]
      apply accepts_mono (accepts_approveOrder zone orderId receiptId adminUserId)
      intro out q' _
      cases out <;> trivial
  | rejectReceipt orderId receiptId adminUserId reason =>
      exact accepts_rejectReceipt orderId receiptId adminUserId reason

end Accepts

/-! ### Receipts and hands -/

/-- No two approved receipts have the same tracking code. -/
def CodesOnce (s : Store) : Prop :=
  ∀ r ∈ s.receipts.rows, ∀ r' ∈ s.receipts.rows, r.status = .approved → r'.status = .approved →
    r.trackingCode.isSome → r.trackingCode = r'.trackingCode → r = r'

/-- The receipt in hand still has the code it was read with; once checked, no other approved receipt
has that code. -/
structure InHand (s : Store) (r : PaymentReceipt) (checked : Bool) : Prop where
  row : ∃ x ∈ s.receipts.rows, x.id = r.id ∧ x.trackingCode = r.trackingCode
  alone : checked = true → ∀ x ∈ s.receipts.rows, x.status = .approved → x.trackingCode.isSome →
    x.trackingCode = r.trackingCode → x.id = r.id

/-- A change that approves nothing, and leaves the codes of all receipts but the touched. -/
structure Calm (t t' : Table PaymentReceipt.id) (touched : ℕ → Prop) : Prop where
  approved : ∀ x ∈ t'.rows, x.status = .approved →
    ∃ y ∈ t.rows, y.status = .approved ∧ y.id = x.id ∧ y.trackingCode = x.trackingCode
  codes : ∀ y ∈ t.rows, ¬touched y.id → ∃ x ∈ t'.rows, x.id = y.id ∧ x.trackingCode = y.trackingCode

section Changes

variable {s s' : Store} {t : Table PaymentReceipt.id} {touched : ℕ → Prop} {x : PaymentReceipt}

theorem Calm.refl (t : Table PaymentReceipt.id) : Calm t t (fun _ => False) :=
  ⟨fun x hx happroved => ⟨x, hx, happroved, rfl, rfl⟩, fun y hy _ => ⟨y, hy, rfl, rfl⟩⟩

theorem CodesOnce.calm (h : CodesOnce s) (hcalm : Calm s.receipts s'.receipts touched) :
    CodesOnce s' := by
  intro r hr r' hr' happroved happroved' hcode hsame
  obtain ⟨y, hy, hya, hyid, hyc⟩ := hcalm.approved r hr happroved
  obtain ⟨y', hy', hya', hyid', hyc'⟩ := hcalm.approved r' hr' happroved'
  have hyy : y = y' := h y hy y' hy' hya hya' (by rw [hyc]; exact hcode) (by rw [hyc, hyc', hsame])
  exact Table.eq_of_key hr hr' (by rw [← hyid, ← hyid', hyy])

theorem InHand.calm {r : PaymentReceipt} {checked : Bool} (h : InHand s r checked)
    (hcalm : Calm s.receipts s'.receipts touched) (hr : ¬touched r.id) : InHand s' r checked := by
  constructor
  · obtain ⟨y, hy, hid, hcode⟩ := h.row
    obtain ⟨x, hx, hxid, hxcode⟩ := hcalm.codes y hy (hid ▸ hr)
    exact ⟨x, hx, hxid.trans hid, hxcode.trans hcode⟩
  · intro hchecked x hx happroved hsome hcode
    obtain ⟨y, hy, hya, hyid, hyc⟩ := hcalm.approved x hx happroved
    rw [← hyid]
    exact h.alone hchecked y hy hya (by rw [hyc]; exact hsome) (by rw [hyc, hcode])

/-- A write of a receipt that is not approved. -/
theorem calm_put (hx : x.status ≠ .approved) : Calm t (t.put x) (· = x.id) := by
  constructor
  · intro y hy happroved
    rcases Table.mem_put.mp hy with rfl | ⟨_, hy⟩
    · exact absurd happroved hx
    · exact ⟨y, hy, happroved, rfl, rfl⟩
  · intro y hy hne
    exact ⟨y, Table.mem_put.mpr (.inr ⟨hne, hy⟩), rfl, rfl⟩

/-- A write over a row with the same code, approved only if that row was. -/
theorem calm_put_over {y : PaymentReceipt} (hy : y ∈ t.rows) (hid : y.id = x.id)
    (hcode : y.trackingCode = x.trackingCode) (hstatus : x.status = .approved → y.status = .approved) :
    Calm t (t.put x) (fun _ => False) := by
  constructor
  · intro z hz happroved
    rcases Table.mem_put.mp hz with rfl | ⟨_, hz⟩
    · exact ⟨y, hy, hstatus happroved, hid, hcode⟩
    · exact ⟨z, hz, happroved, rfl, rfl⟩
  · intro z hz _
    by_cases hzx : z.id = x.id
    · obtain rfl : z = y := Table.eq_of_key hz hy (hzx.trans hid.symm)
      exact ⟨x, Table.mem_put.mpr (.inl rfl), hid.symm, hcode.symm⟩
    · exact ⟨z, Table.mem_put.mpr (.inr ⟨hzx, hz⟩), rfl, rfl⟩

/-- An update of every row that keeps codes and approves nothing. -/
theorem calm_map {f : PaymentReceipt → PaymentReceipt} (hid : ∀ r, (f r).id = r.id)
    (hcode : ∀ r, (f r).trackingCode = r.trackingCode)
    (hstatus : ∀ r, (f r).status = .approved → r.status = .approved) :
    Calm t (t.map f hid) (fun _ => False) := by
  constructor
  · intro z hz happroved
    obtain ⟨y, hy, rfl⟩ := List.mem_map.mp hz
    exact ⟨y, hy, hstatus y happroved, (hid y).symm, (hcode y).symm⟩
  · intro y hy _
    exact ⟨f y, List.mem_map_of_mem hy, hid y, hcode y⟩

/-- What a save of the receipt in hand leaves: its code, and its status or the one stored. -/
theorem savedReceipt_slip (seen : Option PaymentReceipt) {r entity : PaymentReceipt} {b : Bool}
    (h : InHand s r b) (hslip : SameSlip r entity) :
    (s.savedReceipt entity seen).id = r.id ∧
      (s.savedReceipt entity seen).trackingCode = r.trackingCode ∧
      ∃ y ∈ s.receipts.rows, y.id = r.id ∧ y.trackingCode = r.trackingCode ∧
        ((s.savedReceipt entity seen).status = entity.status ∨
          (s.savedReceipt entity seen).status = y.status) := by
  obtain ⟨y, hy, hid, hcode⟩ := h.row
  have hget : s.receipts.get entity.id = some y := by
    rw [hslip.1, ← hid]
    exact Table.mem_rows.mp hy
  cases seen with
  | none =>
      have hsaved : s.savedReceipt entity none = entity := rfl
      rw [hsaved]
      exact ⟨hslip.1, hslip.2, y, hy, hid, hcode, .inl rfl⟩
  | some seen =>
      have hsaved : s.savedReceipt entity (some seen) = entity.merge seen y := by
        simp only [Store.savedReceipt, hget]
      rw [hsaved]
      refine ⟨hid, ?_, y, hy, hid, hcode, ?_⟩
      · show column entity.trackingCode seen.trackingCode y.trackingCode = _
        unfold column
        split
        · exact hcode
        · exact hslip.2
      · show column entity.status seen.status y.status = _ ∨ column entity.status _ _ = _
        unfold column
        split
        · exact .inr rfl
        · exact .inl rfl

end Changes

/-! ### One statement -/

/-- The receipt an analysis saves over at this event. -/
def savesReceipt : Event Resp → Option PaymentReceipt
  | .act _ (.saveWithOrder (.loaded r) _) _ => some r
  | _ => none

/-- The receipt an approval commits at this event, and the approval. -/
def commitsReceipt : Event Resp → Option (ℕ × PaymentReceipt)
  | .act pid (.commitApproval a) _ => some (pid, a.receipt)
  | _ => none

/-- What the calls have in hand after a trace. -/
def handOf (tr : List (Event Resp)) (pid : ℕ) : Hand := stateOf handMonitor .idle tr pid

/-- An approval commits only while no other approval in progress has checked another receipt with the
same tracking code; an analysis saves no receipt that a transaction in progress has read. -/
def SlipsApart (tr : List (Event Resp)) (b : Conf Resp SubscriptionError Store) (e : Event Resp) :
    Prop :=
  (∀ c ∈ commitsReceipt e, ∀ other ∈ List.range b.pool.length, other ≠ c.1 →
    ∀ r ∈ (handOf tr other).checked, r.trackingCode.isSome →
      r.trackingCode = c.2.trackingCode → r.id = c.2.id) ∧
  ∀ x ∈ savesReceipt e, ∀ other ∈ List.range b.pool.length, ∀ r ∈ (handOf tr other).receipt,
    r.id ≠ x.id

instance (tr : List (Event Resp)) (b : Conf Resp SubscriptionError Store) (e : Event Resp) :
    Decidable (SlipsApart tr b e) :=
  inferInstanceAs (Decidable ((∀ c ∈ commitsReceipt e, ∀ other ∈ List.range b.pool.length,
    other ≠ c.1 → ∀ r ∈ (handOf tr other).checked, r.trackingCode.isSome →
      r.trackingCode = c.2.trackingCode → r.id = c.2.id) ∧
    ∀ x ∈ savesReceipt e, ∀ other ∈ List.range b.pool.length, ∀ r ∈ (handOf tr other).receipt,
      r.id ≠ x.id))

section Statement

variable {w : World} {s : Store} {q : Hand}

/-- **Everything but an approval's commit is calm.** -/
theorem calm_exec (pid : ℕ) {c : SubscriptionCmd} (hallowed : handAllowed q c)
    (hq : ∀ r b, q = .holding r b → InHand s r b) (hc : ∀ a, c ≠ .commitApproval a) :
    Calm s.receipts (exec w c s).2.receipts
      (fun id => ∃ x ∈ savesReceipt (.act pid c (exec w c s).1), x.id = id) := by
  have hquiet : ∀ {t' : Table PaymentReceipt.id} {touched : ℕ → Prop},
      Calm s.receipts t' (fun _ => False) → Calm s.receipts t' touched :=
    fun h => ⟨h.approved, fun y hy _ => h.codes y hy fun hno => hno⟩
  cases c with
  | commitApproval a => exact absurd rfl (hc a)
  | commitRejection x =>
      obtain ⟨⟨r, b, hr, hslip⟩, hrejected⟩ := hallowed
      obtain ⟨hid, hcode, y, hy, hyid, hyc, hstatus⟩ := savedReceipt_slip x.seen (hq r b hr) hslip
      refine hquiet (calm_put_over hy (hyid.trans hid.symm) (hyc.trans hcode.symm) ?_)
      intro happroved
      rcases hstatus with hentity | hstored
      · rw [happroved, hrejected] at hentity
        cases hentity
      · rw [← hstored]
        exact happroved
  | saveWithOrder receipt order =>
      have hcalm : Calm s.receipts (s.saveWithOrder receipt order).2.receipts
          (· = (s.storedReceipt (s.savedOrderId order) receipt).id) := by
        apply calm_put
        rw [storedReceipt_status]
        exact hallowed
      refine ⟨hcalm.approved, fun y hy hne => ?_⟩
      cases receipt with
      | loaded r =>
          apply hcalm.codes y hy
          rintro heq
          exact hne ⟨r, rfl, heq.symm⟩
      | created r =>
          apply hcalm.codes y hy
          rintro heq
          have hget := Table.mem_rows.mp hy
          rw [heq, show (s.storedReceipt (s.savedOrderId order) (.created r)).id = s.receipts.fresh
            from rfl, Table.get_fresh] at hget
          cases hget
  | claimForAnalysis id =>
      apply hquiet
      simp only [exec, Store.claimForAnalysis]
      split
      · rename_i r hr
        split
        · refine calm_put_over (Table.mem_of_get hr) rfl rfl fun happroved => ?_
          cases happroved
        · exact .refl _
      · exact .refl _
  | releaseFailedAnalysis id maxAttempts =>
      apply hquiet
      simp only [exec, Store.releaseFailedAnalysis]
      split
      · rename_i r hr
        split
        · refine calm_put_over (Table.mem_of_get hr) rfl rfl fun happroved => ?_
          exact absurd happroved (released_status maxAttempts r)
        · exact .refl _
      · exact .refl _
  | releaseStaleAnalyses before maxAttempts =>
      apply hquiet
      apply calm_map
      · intro r
        split <;> rfl
      · intro r
        split <;> rfl
      · intro r happroved
        split at happroved
        · exact absurd happroved (released_status maxAttempts r)
        · exact happroved
  | commitBonus bonus =>
      apply hquiet
      simp only [exec, Store.commitBonus]
      split <;> exact .refl _
  | _ => exact hquiet (.refl _)

/-- **An approval's commit**: the receipt in hand was checked, so its code stays its own. -/
theorem commitApproval_once {a : Approval} {r : PaymentReceipt} (h : CodesOnce s)
    (hr : InHand s r true) (hslip : SameSlip r a.receipt) :
    CodesOnce (s.commitApproval a).2 := by
  unfold Store.commitApproval
  split
  · rename_i userId _
    obtain ⟨hid, hcode, _⟩ := savedReceipt_slip a.seen hr hslip
    have hnew : ∀ x ∈ s.receipts.rows, x.id ≠ (s.savedReceipt a.receipt a.seen).id →
        x.status = .approved → x.trackingCode.isSome →
        x.trackingCode ≠ (s.savedReceipt a.receipt a.seen).trackingCode := by
      intro x hx hne happroved hsome hsame
      rw [hid] at hne
      rw [hcode] at hsame
      exact hne (hr.alone rfl x hx happroved hsome hsame)
    intro x hx x' hx' happroved happroved' hsome hsame
    rcases Table.mem_put.mp hx with rfl | ⟨hne, hx⟩
    · rcases Table.mem_put.mp hx' with rfl | ⟨hne', hx'⟩
      · rfl
      · exact absurd hsame.symm (hnew x' hx' hne' happroved' (hsame ▸ hsome))
    · rcases Table.mem_put.mp hx' with rfl | ⟨_, hx'⟩
      · exact absurd hsame (hnew x hx hne happroved hsome)
      · exact h x hx x' hx' happroved happroved' hsome hsame
  · exact h

/-- What another transaction holds, after an approval's commit. -/
theorem commitApproval_inHand {a : Approval} {r r' : PaymentReceipt} {b : Bool}
    (hr : InHand s r true) (hslip : SameSlip r a.receipt) (h : InHand s r' b)
    (hapart : b = true → r'.trackingCode.isSome → r'.trackingCode = a.receipt.trackingCode →
      r'.id = a.receipt.id) : InHand (s.commitApproval a).2 r' b := by
  unfold Store.commitApproval
  split
  · rename_i userId _
    obtain ⟨hid, hcode, y, hy, hyid, hyc, _⟩ := savedReceipt_slip a.seen hr hslip
    constructor
    · obtain ⟨x, hx, hxid, hxc⟩ := h.row
      by_cases hsame : x.id = (s.savedReceipt a.receipt a.seen).id
      · -- the row in this hand is the one written, with the code it had
        obtain rfl : x = y := Table.eq_of_key hx hy (hsame.trans (hid.trans hyid.symm))
        refine ⟨_, Table.mem_put.mpr (.inl rfl), hsame.symm.trans hxid, ?_⟩
        rw [hcode, ← hyc, hxc]
      · exact ⟨x, Table.mem_put.mpr (.inr ⟨hsame, hx⟩), hxid, hxc⟩
    · intro hb x hx happroved hsome hsame
      rcases Table.mem_put.mp hx with rfl | ⟨_, hx⟩
      · rw [hid, ← hslip.1]
        refine (hapart hb (hsame ▸ hsome) ?_).symm
        rw [← hsame, hcode, hslip.2]
      · exact h.alone hb x hx happroved hsome hsame
  · exact h

end Statement

/-! ### Every run -/

section Run

variable {zone : Zone} {cfg : AnalysisConfig} {s₀ : Store}

theorem handOf_self (tr : List (Event Resp)) (pid : ℕ) (c : SubscriptionCmd) (r : Resp c) :
    handOf (.act pid c r :: tr) pid = handNext (handOf tr pid) c r := stateOf_act_self tr pid c r

theorem handOf_of_ne {tr : List (Event Resp)} {pid other : ℕ} {c : SubscriptionCmd} {r : Resp c}
    (h : pid ≠ other) : handOf (.act pid c r :: tr) other = handOf tr other := stateOf_act_of_ne h

/-- What every call has in hand is as it was read, and no code is approved twice. -/
structure SlipsKept (tr : List (Event Resp)) (s : Store) : Prop where
  once : CodesOnce s
  hands : ∀ pid r b, handOf tr pid = .holding r b → InHand s r b

/-- A statement that reads: what the call then has in hand. -/
theorem inHand_next {w : World} {s : Store} {q : Hand} {c : SubscriptionCmd} {r : PaymentReceipt}
    {b : Bool} (hq : ∀ r b, q = .holding r b → InHand s r b)
    (hnext : handNext q c (exec w c s).1 = .holding r b) :
    q = .holding r b ∨ InHand (exec w c s).2 r b := by
  cases c with
  | findOneReceipt id =>
      simp only [handNext, exec, takes] at hnext
      split at hnext
      · rename_i x hx
        obtain ⟨rfl, hb⟩ := Hand.holding.inj hnext
        refine .inr ⟨⟨x, Table.mem_of_get hx, rfl, rfl⟩, ?_⟩
        intro hchecked y _ _ hsome hsame
        rw [hsame] at hsome
        rw [hchecked, Option.isNone_iff_eq_none] at hb
        rw [hb] at hsome
        cases hsome
      · exact .inl hnext
  | findApprovedTwin code id =>
      simp only [handNext, exec, lookedFor] at hnext
      split at hnext
      · rename_i x checked htwin
        obtain ⟨rfl, hb⟩ := Hand.holding.inj hnext
        have hold := hq x checked rfl
        refine .inr ⟨hold.row, ?_⟩
        intro hchecked y hy happroved hsome hsame
        rw [hchecked] at hb
        by_cases hbefore : checked = true
        · exact hold.alone hbefore y hy happroved hsome hsame
        · simp only [hbefore, Bool.false_or, Bool.and_eq_true, decide_eq_true_eq] at hb
          -- the look-up saw every approved receipt with this code but the one in hand
          by_contra hne
          have hnone := List.find?_eq_none.mp htwin y hy
          simp only [Bool.and_eq_true, decide_eq_true_eq, not_and] at hnone
          exact hnone ⟨hsame.trans hb.1, fun h => hne (h.trans hb.2.symm)⟩ happroved
      · exact .inl hnext
  | commitApproval a => cases hnext
  | commitRejection x => cases hnext
  | rollback id => cases hnext
  | _ => exact .inl hnext

theorem slips_act {w : World} {tr : List (Event Resp)} {b : Conf Resp SubscriptionError Store}
    {pid : ℕ} {c : SubscriptionCmd} (h : SlipsKept tr b.store)
    (hidle : ∀ pid, b.pool.length ≤ pid → handOf tr pid = .idle)
    (hallowed : handAllowed (handOf tr pid) c)
    (hok : SlipsApart tr b (.act pid c (exec w c b.store).1)) :
    SlipsKept (.act pid c (exec w c b.store).1 :: tr) (exec w c b.store).2 := by
  have hpool : ∀ other r x, handOf tr other = .holding r x → other ∈ List.range b.pool.length := by
    intro other r x hother
    rw [List.mem_range]
    by_contra hge
    rw [hidle other (not_lt.mp hge)] at hother
    cases hother
  by_cases hcommit : ∃ a, c = .commitApproval a
  · obtain ⟨a, rfl⟩ := hcommit
    obtain ⟨r, hr, hslip⟩ := hallowed
    refine ⟨commitApproval_once h.once (h.hands pid r true hr) hslip, fun other r' x hother => ?_⟩
    by_cases hpid : pid = other
    · subst hpid
      rw [handOf_self] at hother
      cases hother
    · rw [handOf_of_ne hpid] at hother
      apply commitApproval_inHand (h.hands pid r true hr) hslip (h.hands other r' x hother)
      intro hx
      subst hx
      exact hok.1 (pid, a.receipt) rfl other (hpool other r' true hother) (Ne.symm hpid) r'
        (by rw [hother]; rfl)
  · have hcalm := calm_exec (w := w) pid hallowed (h.hands pid)
      (fun a ha => hcommit ⟨a, ha⟩)
    have hkeep : ∀ other r x, handOf tr other = .holding r x → InHand (exec w c b.store).2 r x := by
      intro other r x hother
      apply (h.hands other r x hother).calm hcalm
      rintro ⟨entity, hentity, hid⟩
      exact hok.2 entity hentity other (hpool other r x hother) r (by rw [hother]; rfl) hid.symm
    refine ⟨h.once.calm hcalm, fun other r x hother => ?_⟩
    by_cases hpid : pid = other
    · subst hpid
      rw [handOf_self] at hother
      rcases inHand_next (h.hands pid) hother with hsame | hnew
      · exact hkeep pid r x hsame
      · exact hnew
    · rw [handOf_of_ne hpid] at hother
      exact hkeep other r x hother

/-- Every call of a run is accepted from what it has in hand. -/
theorem hands_accepted {Ok : List (Event Resp) → Conf Resp SubscriptionError Store → Event Resp → Prop}
    {tr : List (Event Resp)} {b : Conf Resp SubscriptionError Store}
    (h : (codeMachine zone cfg).Run Ok (.start s₀) tr b) :
    (∀ pid, b.pool.length ≤ pid → handOf tr pid = .idle) ∧
      ∀ pid p, b.pool[pid]? = some p → Accepts handMonitor p (handOf tr pid) (fun _ _ => True) := by
  refine Run.accepted (F := fun _ => True) ?_ (fun _ _ _ _ _ _ _ _ _ _ => trivial) h
  intro call s p s' hb
  obtain rfl : codeProgram zone cfg call = p := congrArg Prod.fst (Option.some.inj hb)
  exact accepts_codeProgram zone cfg call

/-- **A tracking code pays once.**  From a store in which no two approved receipts share a code, in
every run whose approvals of one code do not overlap and whose analyses save no receipt that a
transaction in progress has read, no two approved receipts ever share one. -/
theorem code_pays_once (zone : Zone) (cfg : AnalysisConfig) (h₀ : CodesOnce s₀)
    {tr : List (Event Resp)} {b : Conf Resp SubscriptionError Store}
    (h : (codeMachine zone cfg).Run SlipsApart (.start s₀) tr b) : CodesOnce b.store := by
  have hkept : SlipsKept tr b.store := by
    refine Machine.Run.invariant (fun tr b => SlipsKept tr b.store) ?_ ?_ h
    · exact ⟨h₀, fun pid r x hholding => by cases hholding⟩
    · intro tr b l e c hrun hkept hs hok
      obtain ⟨hidle, hin⟩ := hands_accepted hrun
      cases l with
      | outside passed =>
          obtain ⟨s, ho, rfl, rfl⟩ := Machine.step_outside hs
          obtain rfl := Option.some.inj ho
          exact ⟨hkept.once, fun pid r x hholding => ⟨(hkept.hands pid r x hholding).row,
            (hkept.hands pid r x hholding).alone⟩⟩
      | start call =>
          obtain ⟨p, s, hb, rfl, rfl⟩ := Machine.step_start hs
          obtain rfl : b.store = s := congrArg Prod.snd (Option.some.inj hb)
          exact ⟨hkept.once, hkept.hands⟩
      | act pid w =>
          obtain ⟨cmd, k, r, s, hcall, hx, rfl, rfl⟩ := Machine.step_act hs
          have hexec : exec w cmd b.store = (r, s) := by
            have hx' : (if blocked cmd b.store then none else some (exec w cmd b.store)) =
                some (r, s) := hx
            split at hx'
            · cases hx'
            · exact Option.some.inj hx'
          obtain rfl : (exec w cmd b.store).1 = r := congrArg Prod.fst hexec
          obtain rfl : (exec w cmd b.store).2 = s := congrArg Prod.snd hexec
          exact slips_act hkept hidle (hin pid _ hcall).1 hok
  exact hkept.once

end Run

/-! ### A run of each kind -/

instance (s : Store) : Decidable (CodesOnce s) :=
  inferInstanceAs (Decidable (∀ r ∈ s.receipts.rows, ∀ r' ∈ s.receipts.rows,
    r.status = .approved → r'.status = .approved → r.trackingCode.isSome →
    r.trackingCode = r'.trackingCode → r = r'))

/-- The receipt of an order, read by the model: the slip `A1`. -/
def slipReceipt (id : ℕ) : PaymentReceipt :=
  { paidReceipt with
    id := id
    orderId := id
    status := .needsReview
    trackingCode := some slipCode }

/-- One slip was sent for two orders. -/
def oneSlipTwice : Store :=
  { paidStore with
    orders := (Table.empty.put paidOrder).put { paidOrder with id := 2 }
    receipts := (Table.empty.put (slipReceipt 1)).put (slipReceipt 2) }

/-- `n` statements of call `pid`. -/
def statements (pid n : ℕ) : List (codeMachine .utc fiveAttempts).Label :=
  List.replicate n (.act pid readSlip)

/-- The second approval begins when the first is over. -/
def oneByOne : List (codeMachine .utc fiveAttempts).Label :=
  [[.start (.approveOrder 1 1 9)], statements 0 13, [.start (.approveOrder 2 2 9)],
    statements 1 4].flatten

theorem code_pays_once_one_by_one :
    CodesOnce oneSlipTwice ∧ ∃ tr b, (codeMachine .utc fiveAttempts).Run SlipsApart
      (.start oneSlipTwice) tr b ∧ ReceiptApproved b.store 1 ∧ CodesOnce b.store := by
  have hplay : ((codeMachine .utc fiveAttempts).play SlipsApart [] (.start oneSlipTwice)
      oneByOne).any (fun x => ReceiptApproved x.2.store 1) = true := by
    decide
  simp only [Option.any_eq_true, decide_eq_true_eq] at hplay
  obtain ⟨⟨tr, b⟩, hp, happroved⟩ := hplay
  have hslips : CodesOnce oneSlipTwice := by decide
  have hrun := Machine.play_run .nil hp
  exact ⟨hslips, tr, b, hrun, happroved, code_pays_once .utc fiveAttempts hslips hrun⟩

/-- Both approvals look for the code before either commits. -/
def bothLookFirst : List (codeMachine .utc fiveAttempts).Label :=
  [[.start (.approveOrder 1 1 9), .start (.approveOrder 2 2 9)], statements 0 3, statements 1 3,
    statements 0 10, statements 1 9].flatten

/-- Each approval sees the other receipt as not yet approved, and the slip pays twice. -/
theorem slip_pays_twice :
    CodesOnce oneSlipTwice ∧ ∃ tr b, (codeMachine .utc fiveAttempts).Run (fun _ _ _ => True)
      (.start oneSlipTwice) tr b ∧ ¬CodesOnce b.store := by
  have hplay : ((codeMachine .utc fiveAttempts).play (fun _ _ _ => True) [] (.start oneSlipTwice)
      bothLookFirst).any (fun x => ¬CodesOnce x.2.store) = true := by
    decide
  simp only [Option.any_eq_true, decide_eq_true_eq] at hplay
  obtain ⟨⟨tr, b⟩, hp, htwice⟩ := hplay
  exact ⟨by decide, tr, b, Machine.play_run .nil hp, htwice⟩

end TransportBackend.TrackingCodes
