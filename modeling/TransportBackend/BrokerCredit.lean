import TransportBackend.BrokerService
import TransportBackend.LockHolders
import TransportBackend.TripRun

/-!
# Broker credit is conserved

Requests charged, saved or refunded, packages bought, approved or rejected, and gifts of the admin, in
any order, with any saves failing.  A charge is one conditional decrement, a refund and a gift are one
upserting increment, and an approval holds its order's row until credit and status commit together.

* `OrderStep` — what one statement may do to the orders: nothing, a new order, one decision;
* `grantOf`, `useOf`, `refundOf`, `decisionOf` — what a statement gives, takes and decides, tallied over
  the trace;
* `credit_conserved` — **a broker's credit is what it was given and bought less what it used**, it is
  never negative, and an order is decided at most once.
-/

namespace TransportBackend.BrokerCredit

open TransportBackend.AtomicProgram
open TransportBackend.AtomicProgram.Prog
open TransportBackend.CommandSum
open TransportBackend.InterleavedRun
open TransportBackend.KeyedTable
open TransportBackend.LockHolders
open TransportBackend.MonitoredProgram
open TransportBackend.TripStore (ServiceError UsageChannel CargoRequest)
open TransportBackend.TripService (RequestAnswers Services)
open TransportBackend.BrokerStore
open TransportBackend.BrokerService

/-! ### The calls -/

/-- The calls on credits and orders, with those on the requests they are used for. -/
inductive CreditCall where
  | request (answers : RequestAnswers) (driverUserId listingId : ℕ) (source : Option UsageChannel)
  | cancel (broker : Bool) (driverUserId requestId : ℕ)
  | grantRequests (userId requests : ℕ)
  | submitPackageOrder (userId : ℕ) (packages : ℚ) (receiptPath : String)
  | approveOrder (orderId adminUserId : ℕ)
  | rejectOrder (orderId adminUserId : ℕ) (reason : String)

/-- A method whose result nobody waits for. -/
def unanswered {α : Type} (p : Broker α) : Broker Unit := do
  let _ ← p
  pure ()

/-- How the service was set up: its optional parts, `BROKERS_OPEN` and the titles of orders. -/
structure Setup where
  services : Services
  brokersOpen : Bool
  title : BrokerAccessOrder → String

/-- What a call runs. -/
def creditProgram (cfg : Setup) : CreditCall → Broker Unit
  | .request answers driver listing source =>
      unanswered (requestCharged cfg.services cfg.brokersOpen answers driver listing source)
  | .cancel broker driver id => unanswered (trip (TripService.cancel broker driver id))
  | .grantRequests userId requests => unanswered (grantRequests userId requests)
  | .submitPackageOrder userId packages receiptPath =>
      unanswered (submitPackageOrder cfg.title userId packages receiptPath)
  | .approveOrder id admin => unanswered (approveOrder id admin)
  | .rejectOrder id admin reason => rejectOrder id admin reason

/-- What others change meanwhile: the policy, the companies, who is a broker, the time. -/
structure Elsewhere where
  policy : BrokerAccessPolicy
  companies : List Company
  brokers : List ℕ
  passed : ℕ

/-- The store after such a change. -/
def Elsewhere.apply (o : Elsewhere) (s : Store) : Store where
  trips := { s.trips with clock := s.trips.clock + o.passed }
  access :=
    { s.access with policy := o.policy, companies := o.companies, brokers := o.brokers }

/-- Any number of calls on both stores; a statement that waits is not executed. -/
def brokerMachine {Call : Type} (program : Call → Broker Unit) : Machine Resp ServiceError Store where
  Choice := World
  Outside := Elsewhere
  Call := Call
  exec w c s := if waits c s then none else some (exec w c s)
  outside o s := some (o.apply s)
  begin call s := some (program call, s)

/-- What a step can do. -/
theorem brokerStep_cases {Call : Type} {program : Call → Broker Unit}
    {b c : Conf Resp ServiceError Store} {l : (brokerMachine program).Label} {e : Event Resp}
    (hs : (brokerMachine program).step b l = some (e, c)) :
    (∃ o : Elsewhere, e = .outside ∧ c = ⟨o.apply b.store, b.pool⟩) ∨
      (∃ call, e = .start b.pool.length ∧ c = ⟨b.store, b.pool ++ [program call]⟩) ∨
      ∃ pid w cmd k, b.pool[pid]? = some (.call cmd k) ∧ waits cmd b.store = false ∧
        e = .act pid cmd (exec w cmd b.store).1 ∧
        c = ⟨(exec w cmd b.store).2, b.pool.set pid (k (exec w cmd b.store).1)⟩ := by
  cases l with
  | outside o =>
      obtain ⟨s, hout, he, hc⟩ := Machine.step_outside hs
      obtain rfl := Option.some.inj hout
      exact .inl ⟨o, he, hc⟩
  | start call =>
      obtain ⟨p, s, hbegin, he, hc⟩ := Machine.step_start hs
      obtain ⟨rfl, rfl⟩ := Prod.mk.inj (Option.some.inj hbegin)
      exact .inr (.inl ⟨call, he, hc⟩)
  | act pid w =>
      obtain ⟨cmd, k, r, s, hpool, hexec, rfl, rfl⟩ := Machine.step_act hs
      rw [show (brokerMachine program).exec w cmd b.store =
        if waits cmd b.store then none else some (exec w cmd b.store) from rfl] at hexec
      split at hexec
      · cases hexec
      · rename_i hfree
        have hrun := Option.some.inj hexec
        refine .inr (.inr ⟨pid, w, cmd, k, hpool, Bool.eq_false_of_not_eq_true hfree, ?_, ?_⟩)
        · rw [hrun]
        · rw [hrun]

/-! ### The order a call holds -/

/-- The order whose row the call holds, as it found it. -/
abbrev Hold : Type := Option (ℕ × Option BrokerAccessOrder)

/-- Where a statement and its answer lead. -/
def holdNext (q : Hold) : (c : BrokerCmd) → Resp c → Hold
  | .inr (.lockOrder id), found => some (id, found)
  | .inr (.commitApproval _), saved => if saved then none else q
  | .inr (.rollback _), _ => none
  | _, _ => q

/-- What a call may issue where it stands. -/
def holdAllowed (q : Hold) : BrokerCmd → Prop
  | .inr (.lockOrder _) => q = none
  | .inr (.commitApproval a) =>
      q = some (a.order.id, some a.order) ∧ a.order.status = .receiptSubmitted
  | .inr (.rollback id) => ∃ o, q = some (id, o)
  | .inr (.saveOrder o) => o.status = .receiptSubmitted
  | _ => True

/-- The row found under an id has that id. -/
def holdAnswers (_ : Hold) : (c : BrokerCmd) → Resp c → Prop
  | .inr (.lockOrder id), found => ∀ o ∈ found, o.id = id
  | _, _ => True

/-- The monitor of one call. -/
def holdMonitor : Monitor Resp Hold where
  allowed := holdAllowed
  answers := holdAnswers
  next := holdNext

/-- The statements that leave orders and locks alone, and a rejection. -/
def Plain : BrokerCmd → Prop
  | .inr (.lockOrder _) => False
  | .inr (.commitApproval _) => False
  | .inr (.rollback _) => False
  | .inr (.saveOrder _) => False
  | _ => True

section Accepts

variable {α : Type} {q : Hold}

/-- Every statement of the program is plain. -/
def AllPlain (p : Broker α) : Prop := p.Within Plain (fun _ _ => True) (fun _ => True)

theorem allPlain_trip (p : TripStore.Trip α) : AllPlain (trip p) :=
  (within_onLeft p).mpr (within_true p)

theorem AllPlain.bind {β : Type} {p : Broker α} {f : α → Broker β} (hp : AllPlain p)
    (hf : ∀ a, AllPlain (f a)) : AllPlain (p >>= f) :=
  (within_bind _ _).mpr (within_mono hp fun a _ => hf a)

theorem allPlain_refuseIf (p : Prop) [Decidable p] (e : ServiceError) :
    AllPlain (.refuseIf p e) := by
  rw [AllPlain, within_refuseIf]
  exact fun _ => trivial

theorem allPlain_orThrow (e : ServiceError) (o : Option α) : AllPlain (.orThrow e o) := by
  rw [AllPlain, within_orThrow]
  exact fun _ _ => trivial

theorem allPlain_access {c : AccessCmd} (h : Plain (.inr c)) : AllPlain (access c) :=
  ⟨h, fun _ _ => trivial⟩

theorem allPlain_bind_access {c : AccessCmd} {f : AccessResp c → Broker α} (h : Plain (.inr c))
    (hf : ∀ r, AllPlain (f r)) : AllPlain (access c >>= f) := (allPlain_access h).bind hf

theorem AllPlain.unseen {p : Broker α} (h : AllPlain p) : Unseen holdMonitor p := by
  apply keeps_of_within _ h
  intro c hc q
  cases c with
  | inl c => exact ⟨trivial, fun _ _ => rfl⟩
  | inr c => cases c <;> first | exact hc.elim | exact ⟨trivial, fun _ _ => rfl⟩

theorem AllPlain.accepts {p : Broker α} {Q : Except ServiceError α → Hold → Prop} (h : AllPlain p)
    (hQ : ∀ out, Q out q) : Accepts holdMonitor p q Q := Unseen.accepts h.unseen hQ

theorem allPlain_useRequest (brokersOpen : Bool) (userId : ℕ) :
    AllPlain (useRequest brokersOpen userId) := by
  unfold useRequest
  split
  · trivial
  · refine allPlain_bind_access trivial fun broker => ?_
    split
    · refine allPlain_bind_access trivial fun policy => ?_
      split
      · refine allPlain_bind_access trivial fun updated => ?_
        exact (allPlain_refuseIf _ _).bind fun _ => trivial
      · trivial
    · trivial

theorem allPlain_remaining (userId : ℕ) : AllPlain (remaining userId) :=
  allPlain_bind_access trivial fun _ => trivial

theorem allPlain_grantRequests (userId requests : ℕ) : AllPlain (grantRequests userId requests) := by
  refine allPlain_bind_access trivial fun broker => ?_
  refine (allPlain_refuseIf _ _).bind fun _ => ?_
  exact allPlain_bind_access trivial fun _ => allPlain_remaining userId

theorem allPlain_saveOrRefund (charged : Bool) (userId : ℕ) {save : Broker CargoRequest}
    (h : AllPlain save) : AllPlain (saveOrRefund charged userId save) := by
  refine AllPlain.bind (within_attempt h fun _ => trivial) fun out => ?_
  cases out with
  | ok saved => trivial
  | error e =>
      refine AllPlain.bind ?_ fun _ => trivial
      unfold refundIf
      split
      · exact allPlain_access trivial
      · trivial

theorem allPlain_requestSaved (cfg : Services) (brokersOpen : Bool) (answers : RequestAnswers)
    (driverUserId : ℕ) (listing : TripStore.CargoListing) (existing : Option CargoRequest)
    (change : CargoRequest → CargoRequest) :
    AllPlain (requestSaved cfg brokersOpen answers driverUserId listing existing change) := by
  refine AllPlain.bind ?_ fun charged => ?_
  · unfold chargeIf
    split
    · exact allPlain_useRequest brokersOpen driverUserId
    · trivial
  · refine (allPlain_saveOrRefund charged driverUserId (allPlain_trip _)).bind fun saved => ?_
    refine (allPlain_trip _).bind fun full => ?_
    exact (allPlain_trip _).bind fun _ => trivial

theorem allPlain_requestCharged (cfg : Services) (brokersOpen : Bool) (answers : RequestAnswers)
    (driverUserId listingId : ℕ) (source : Option UsageChannel) :
    AllPlain (requestCharged cfg brokersOpen answers driverUserId listingId source) := by
  refine (allPlain_trip _).bind fun driverFor => ?_
  refine (allPlain_trip _).bind fun found => ?_
  refine (allPlain_orThrow _ _).bind fun listing => ?_
  refine (allPlain_refuseIf _ _).bind fun _ => ?_
  refine (allPlain_refuseIf _ _).bind fun _ => ?_
  refine (allPlain_refuseIf _ _).bind fun _ => ?_
  refine (allPlain_trip _).bind fun border => ?_
  refine (allPlain_trip _).bind fun existing => ?_
  refine (allPlain_trip _).bind fun _ => ?_
  exact allPlain_requestSaved _ _ _ _ _ _ _

theorem allPlain_rejectOrder (orderId adminUserId : ℕ) (reason : String) :
    AllPlain (rejectOrder orderId adminUserId reason) := by
  refine (allPlain_trip _).bind fun now => ?_
  refine allPlain_bind_access trivial fun affected => ?_
  refine (allPlain_refuseIf _ _).bind fun _ => ?_
  exact allPlain_bind_access trivial fun _ => trivial

theorem accepts_access (c : AccessCmd) {Q : Except ServiceError (AccessResp c) → Hold → Prop} :
    Accepts (α := no_index (AccessResp c)) holdMonitor (access c) q Q ↔
      holdAllowed q (.inr c) ∧
        ∀ r, holdAnswers q (.inr c) r → Q (.ok r) (holdNext q (.inr c) r) := Iff.rfl

theorem accepts_submitPackageOrder (title : BrokerAccessOrder → String) (userId : ℕ) (packages : ℚ)
    (receiptPath : String) :
    Accepts holdMonitor (submitPackageOrder title userId packages receiptPath) q
      (fun _ q' => q' = q) := by
  simp only [submitPackageOrder, accepts_bind, accepts_access, accepts_refuseIf, outcome_ok,
    outcome_error]
  refine ⟨trivial, fun _ _ => ⟨fun _ => rfl, fun _ => ⟨trivial, fun policy _ => ?_⟩⟩⟩
  refine ⟨fun _ => rfl, fun _ => ⟨fun _ => rfl, fun _ => ⟨trivial, fun found _ => ?_⟩⟩⟩
  cases found with
  | some open_ => rfl
  | none =>
      simp only [accepts_bind, accepts_access, accepts_orThrow, outcome_ok]
      exact ⟨rfl, fun _ _ => ⟨fun _ => rfl, fun _ _ => rfl⟩⟩

theorem allPlain_pickOf (o : BrokerAccessOrder) (now : ℕ) : AllPlain (pickOf o now) := by
  unfold pickOf
  split
  · trivial
  · refine AllPlain.bind ?_ fun _ => trivial
    refine allPlain_bind_access trivial fun current => ?_
    cases current <;> trivial

/-- **An approval** commits what it locked, or gives the row back. -/
theorem accepts_approveLocked (orderId adminUserId now : ℕ) :
    Accepts holdMonitor (approveLocked orderId adminUserId now) none (fun _ q' => q' = none) := by
  rw [approveLocked, transaction, accepts_bind, accepts_attempt]
  have hback : ∀ (e : ServiceError) (o : Option BrokerAccessOrder),
      Accepts holdMonitor (do
        access (.rollback orderId)
        (.throw e : Broker BrokerAccessOrder)) (some (orderId, o)) (fun _ q' => q' = none) :=
    fun _ o => ⟨⟨o, rfl⟩, fun _ _ => rfl⟩
  simp only [lockForApproval, accepts_bind, accepts_access, accepts_orThrow, accepts_refuseIf,
    accepts_pure, outcome_ok, outcome_error]
  refine ⟨rfl, fun found hfound => ⟨fun _ => hback _ _, ?_⟩⟩
  rintro order rfl
  refine ⟨fun _ => hback _ _, fun hsubmitted => ?_⟩
  apply (allPlain_pickOf order now).accepts
  intro out
  cases out with
  | error e => exact hback e (some order)
  | ok selection =>
      rw [outcome_ok]
      have hid : order.id = orderId := hfound order rfl
      refine ⟨⟨by rw [hid]; rfl, not_not.mp hsubmitted⟩, ?_⟩
      intro saved _
      cases saved with
      | true => exact ⟨fun h => absurd h.symm Bool.false_ne_true, fun _ => rfl⟩
      | false => exact ⟨fun _ => hback _ (some order), fun h => absurd rfl h⟩

/-- **Every call keeps to the monitor.** -/
theorem accepts_creditProgram (cfg : Setup) (call : CreditCall) :
    Accepts holdMonitor (creditProgram cfg call) none (fun _ _ => True) := by
  have hplain : ∀ {β : Type} {p : Broker β}, AllPlain p →
      Accepts holdMonitor (unanswered p) none (fun _ _ => True) := by
    intro β p hp
    have hpure : AllPlain (pure () : Broker Unit) := trivial
    exact (hp.bind fun _ => hpure).accepts fun _ => trivial
  cases call with
  | request answers driver listing source => exact hplain (allPlain_requestCharged _ _ _ _ _ _)
  | cancel broker driver id => exact hplain (allPlain_trip _)
  | grantRequests userId requests => exact hplain (allPlain_grantRequests userId requests)
  | rejectOrder id admin reason => exact (allPlain_rejectOrder id admin reason).accepts fun _ => trivial
  | submitPackageOrder userId packages receiptPath =>
      simp only [creditProgram, unanswered, accepts_bind]
      apply accepts_mono (accepts_submitPackageOrder cfg.title userId packages receiptPath)
      intro out _ _
      cases out <;> trivial
  | approveOrder id admin =>
      simp only [creditProgram, unanswered, approveOrder, accepts_bind]
      apply (allPlain_trip TripStore.dateNow).accepts
      intro out
      cases out with
      | error e => trivial
      | ok now =>
          apply accepts_mono (accepts_approveLocked id admin now)
          rintro out' _ rfl
          cases out' with
          | error e => trivial
          | ok order =>
              apply (allPlain_remaining order.userId).accepts
              intro out''
              cases out'' <;> trivial

end Accepts

/-! ### Tallies -/

/-- The requests this statement gives the broker. -/
def grantOf (userId : ℕ) : Event Resp → ℤ
  | .act _ (.inr (.grantCredit u requests)) _ => if u = userId then requests else 0
  | _ => 0

/-- This statement took one of the broker's requests. -/
def useOf (userId : ℕ) : Event Resp → ℤ
  | .act _ (.inr (.takeCredit u)) taken => if u = userId ∧ taken = true then 1 else 0
  | _ => 0

/-- This statement gave one back. -/
def refundOf (userId : ℕ) : Event Resp → ℤ
  | .act _ (.inr (.refundCredit u)) _ => if u = userId then 1 else 0
  | _ => 0

/-- This statement decided the order. -/
def decisionOf (orderId : ℕ) : Event Resp → ℤ
  | .act _ (.inr (.commitApproval a)) saved =>
      if a.order.id = orderId ∧ saved = true then 1 else 0
  | .act _ (.inr (.rejectSubmitted id _ _ _)) affected =>
      if id = orderId ∧ affected = true then 1 else 0
  | _ => 0

/-- What an order has added to this broker's credit. -/
def creditOf (userId : ℕ) (o : BrokerAccessOrder) : ℤ :=
  if o.userId = userId ∧ o.status = .approved then o.credit else 0

/-- The requests of the broker's approved packages. -/
def approvedRequests (s : AccessStore) (userId : ℕ) : ℤ := (s.orders.rows.map (creditOf userId)).sum

/-! ### What one statement does to the orders -/

/-- Nothing, a new order to be reviewed, or one decision. -/
inductive OrderStep (s s' : AccessStore) (e : Event Resp) : Prop where
  | same (horders : s'.orders = s.orders) (hcount : ∀ id, decisionOf id e = 0)
  | submitted (o : BrokerAccessOrder) (hnew : s.orders.get o.id = none)
      (horders : s'.orders = s.orders.put o) (hstatus : o.status = .receiptSubmitted)
      (hcount : ∀ id, decisionOf id e = 0)
  | decided (o o' : BrokerAccessOrder) (hold : s.orders.get o'.id = some o)
      (horders : s'.orders = s.orders.put o') (hbefore : o.status = .receiptSubmitted)
      (hafter : o'.status ≠ .receiptSubmitted)
      (hcount : ∀ id, decisionOf id e = if o'.id = id then 1 else 0)

/-- Whoever holds an order's row holds it alone and finds it as it was read. -/
structure Held (held : ℕ → Hold) (s : AccessStore) : Prop where
  exclusive : Exclusive held s.orderLocks
  read : ∀ pid id o, held pid = some (id, some o) → s.orders.get id = some o

section OneStatement

variable {held : ℕ → Hold} {w : World} {s : Store} {pid : ℕ}

theorem exec_inl_access (c : TripStore.TripCmd) : (exec w (.inl c) s).2.access = s.access := by
  unfold exec
  dsimp only
  split <;> rfl

theorem takeCredit_orders (s : AccessStore) (userId : ℕ) :
    (s.takeCredit userId).2.orders = s.orders ∧ (s.takeCredit userId).2.orderLocks = s.orderLocks := by
  unfold AccessStore.takeCredit
  split <;> exact ⟨rfl, rfl⟩

theorem creditApproval_orders (s : AccessStore) (a : Approval) :
    (s.creditApproval a).orders = s.orders := by
  unfold AccessStore.creditApproval
  split <;> rfl

theorem pickApproval_tables (s : AccessStore) (a : Approval) :
    (s.pickApproval a).orders = s.orders ∧ (s.pickApproval a).credits = s.credits := by
  unfold AccessStore.pickApproval
  split <;> exact ⟨rfl, rfl⟩

/-- An approval of a row that is as it was read. -/
theorem approved_orders {s : AccessStore} {a : Approval} (h : s.orders.get a.order.id = some a.order) :
    (s.approved a).orders = s.orders.put (a.order.approvedBy a.adminUserId a.now) := by
  have horders : ((s.creditApproval a).pickApproval a).orders = s.orders := by
    rw [(pickApproval_tables _ a).1, creditApproval_orders]
  show (((s.creditApproval a).pickApproval a).markApproved a).orders = _
  unfold AccessStore.markApproved
  rw [horders, h]

theorem commitSelection_tables (s : AccessStore) (userId : ℕ) (ids : List ℕ) (now : ℕ) :
    (s.commitSelection userId ids now).orders = s.orders ∧
      (s.commitSelection userId ids now).credits = s.credits ∧
      (s.commitSelection userId ids now).orderLocks = s.orderLocks := by
  unfold AccessStore.commitSelection
  split <;> exact ⟨rfl, rfl, rfl⟩

/-- **What a statement does to the orders.** -/
theorem orderStep_exec (h : Held held s.access) (cmd : BrokerCmd) (hallowed : holdAllowed (held pid) cmd) :
    OrderStep s.access (exec w cmd s).2.access (.act pid cmd (exec w cmd s).1) := by
  cases cmd with
  | inl c => exact .same (congrArg AccessStore.orders (exec_inl_access c)) fun _ => rfl
  | inr c =>
      cases c with
      | takeCredit userId => exact .same (takeCredit_orders s.access userId).1 fun _ => rfl
      | commitSelection userId ids now =>
          exact .same (commitSelection_tables s.access userId ids now).1 fun _ => rfl
      | saveOrder o =>
          by_cases hfails : w.fails
          · refine .same ?_ fun _ => rfl
            show (if w.fails = true then (none, s.access) else s.access.saveOrder o).2.orders = _
            rw [if_pos hfails]
          · refine .submitted (s.access.newOrder o) (Table.get_fresh _) ?_ hallowed fun _ => rfl
            show (if w.fails = true then (none, s.access) else s.access.saveOrder o).2.orders = _
            rw [if_neg hfails]
            rfl
      | commitApproval a =>
          obtain ⟨hheld, hsubmitted⟩ := hallowed
          have hget := h.read pid _ _ hheld
          have hexec : exec w (.inr (.commitApproval a)) s =
              ((if w.fails = true then (false, s.access) else (true, s.access.approved a)).1,
                { s with
                  access := (if w.fails = true then (false, s.access)
                    else (true, s.access.approved a)).2 }) := rfl
          by_cases hfails : w.fails
          · rw [hexec, if_pos hfails]
            exact .same rfl fun id => if_neg fun hid => Bool.false_ne_true hid.2
          · rw [hexec, if_neg hfails]
            refine .decided a.order (a.order.approvedBy a.adminUserId a.now) hget
              (approved_orders hget) hsubmitted (by simp [BrokerAccessOrder.approvedBy]) ?_
            intro id
            exact if_congr (and_iff_left rfl) rfl rfl
      | rejectSubmitted id adminUserId reason now =>
          have hexec : exec w (.inr (.rejectSubmitted id adminUserId reason now)) s =
              ((s.access.rejectSubmitted id adminUserId reason now).1,
                { s with access := (s.access.rejectSubmitted id adminUserId reason now).2 }) := rfl
          rw [hexec]
          unfold AccessStore.rejectSubmitted
          cases hget : s.access.orders.get id with
          | none => exact .same rfl fun x => if_neg fun hx => Bool.false_ne_true hx.2
          | some o =>
              dsimp only
              have hid : o.id = id := Table.key_of_get hget
              by_cases hsubmitted : o.status = .receiptSubmitted
              · rw [if_pos hsubmitted]
                refine .decided o (o.rejectedBy adminUserId reason now) ?_ rfl hsubmitted
                  (by simp [BrokerAccessOrder.rejectedBy]) ?_
                · show s.access.orders.get o.id = some o
                  rw [hid]
                  exact hget
                · intro x
                  rw [show (o.rejectedBy adminUserId reason now).id = id from hid]
                  exact if_congr (and_iff_left rfl) rfl rfl
              · rw [if_neg hsubmitted]
                exact .same rfl fun x => if_neg fun hx => Bool.false_ne_true hx.2
      | _ => exact .same rfl fun _ => rfl

theorem Held.mono {s s' : AccessStore} (h : Held held s) (hlocks : s'.orderLocks = s.orderLocks)
    (hread : ∀ id ∈ s.orderLocks, ∀ o, s.orders.get id = some o → s'.orders.get id = some o) :
    Held held s' := by
  refine ⟨hlocks ▸ h.exclusive, ?_⟩
  intro x id o hx
  exact hread id (h.exclusive.locked x id _ hx) o (h.read x id o hx)

/-- A statement that neither takes nor gives back a row. -/
theorem Held.stay {s s' : AccessStore} (h : Held held s) (hlocks : s'.orderLocks = s.orderLocks)
    (hread : ∀ id ∈ s.orderLocks, ∀ o, s.orders.get id = some o → s'.orders.get id = some o) :
    Held (Function.update held pid (held pid)) s' := by
  rw [Function.update_eq_self]
  exact h.mono hlocks hread

/-- **Rows stay as they were read** while they are held. -/
theorem Held.step (h : Held held s.access) (cmd : BrokerCmd) (hallowed : holdAllowed (held pid) cmd)
    (hfree : waits cmd s = false) :
    Held (Function.update held pid (holdNext (held pid) cmd (exec w cmd s).1))
      (exec w cmd s).2.access := by
  have hstill : ∀ id ∈ s.access.orderLocks, ∀ o, s.access.orders.get id = some o →
      s.access.orders.get id = some o := fun _ _ _ hget => hget
  cases cmd with
  | inl c =>
      rw [exec_inl_access]
      exact h.stay rfl hstill
  | inr c =>
      cases c with
      | takeCredit userId =>
          obtain ⟨horders, hlocks⟩ := takeCredit_orders s.access userId
          refine h.stay hlocks ?_
          intro id _ o hget
          rw [← horders] at hget
          exact hget
      | commitSelection userId ids now =>
          obtain ⟨horders, _, hlocks⟩ := commitSelection_tables s.access userId ids now
          refine h.stay hlocks ?_
          intro id _ o hget
          rw [← horders] at hget
          exact hget
      | lockOrder id =>
          refine ⟨h.exclusive.lock (of_decide_eq_false hfree) _, ?_⟩
          intro x y o hx
          rcases update_some_cases hx with ⟨_, heq⟩ | ⟨_, hx⟩
          · obtain ⟨rfl, hfound⟩ := Prod.mk.inj heq
            exact hfound.symm
          · exact h.read x y o hx
      | rollback id =>
          obtain ⟨o, hheld⟩ := hallowed
          refine ⟨h.exclusive.release hheld, ?_⟩
          intro x y o' hx
          exact h.read x y o' (update_none_eq_some hx).2
      | saveOrder o =>
          have hexec : (exec w (.inr (.saveOrder o)) s).2.access =
              (if w.fails = true then (none, s.access) else s.access.saveOrder o).2 := rfl
          rw [hexec]
          split
          · exact h.stay rfl hstill
          · refine h.stay rfl ?_
            intro id _ o' hget
            -- the id of the new order is one that nobody can have read a row under
            have hne : id ≠ (s.access.newOrder o).id := by
              rintro rfl
              rw [show (s.access.newOrder o).id = s.access.orders.fresh from rfl,
                Table.get_fresh] at hget
              cases hget
            exact (Table.get_put_of_ne hne).trans hget
      | commitApproval a =>
          obtain ⟨hheld, _⟩ := hallowed
          have hexec : exec w (.inr (.commitApproval a)) s =
              ((if w.fails = true then (false, s.access) else (true, s.access.approved a)).1,
                { s with
                  access := (if w.fails = true then (false, s.access)
                    else (true, s.access.approved a)).2 }) := rfl
          by_cases hfails : w.fails
          · rw [hexec, if_pos hfails]
            exact h.stay rfl hstill
          · rw [hexec, if_neg hfails]
            show Held (Function.update held pid none) (s.access.approved a)
            have hlocks : (s.access.approved a).orderLocks = s.access.orderLocks.erase a.order.id := rfl
            refine ⟨hlocks ▸ h.exclusive.release hheld, ?_⟩
            intro x y o hx
            obtain ⟨hx', hne⟩ := h.exclusive.others hheld hx
            rw [approved_orders (h.read pid _ _ hheld),
              Table.get_put_of_ne (a := a.order.approvedBy a.adminUserId a.now) hne]
            exact h.read x y o hx'
      | rejectSubmitted id adminUserId reason now =>
          have hexec : (exec w (.inr (.rejectSubmitted id adminUserId reason now)) s).2.access =
              (s.access.rejectSubmitted id adminUserId reason now).2 := rfl
          rw [hexec]
          unfold AccessStore.rejectSubmitted
          cases hget : s.access.orders.get id with
          | none => exact h.stay rfl hstill
          | some o =>
              dsimp only
              split
              · refine h.stay rfl ?_
                intro y hy o' hy'
                have hid : o.id = id := Table.key_of_get hget
                -- the update waited until nobody held the row
                have hne : y ≠ (o.rejectedBy adminUserId reason now).id := by
                  show y ≠ o.id
                  rw [hid]
                  rintro rfl
                  exact of_decide_eq_false hfree hy
                exact (Table.get_put_of_ne hne).trans hy'
              · exact h.stay rfl hstill
      | _ => exact h.stay rfl hstill

/-! ### What one statement does to the credits -/

theorem remaining_addCredit (s : AccessStore) (userId count u : ℕ) :
    (s.addCredit userId count).remaining u =
      s.remaining u + if userId = u then (count : ℤ) else 0 := by
  show ((((s.credits.put ⟨userId, s.remaining userId + count⟩).get u).map
    BrokerRequestCredit.remaining).getD 0) = _
  rw [Table.get_put]
  by_cases hu : u = userId
  · subst hu
    rw [if_pos rfl, if_pos rfl]
    rfl
  · rw [if_neg hu, if_neg fun heq => hu heq.symm, add_zero]
    rfl

theorem remaining_takeCredit (s : AccessStore) (userId u : ℕ) :
    (s.takeCredit userId).2.remaining u =
      s.remaining u - if userId = u ∧ (s.takeCredit userId).1 = true then 1 else 0 := by
  unfold AccessStore.takeCredit
  split
  · show ((((s.credits.put ⟨userId, s.remaining userId - 1⟩).get u).map
      BrokerRequestCredit.remaining).getD 0) = _
    rw [Table.get_put]
    by_cases hu : u = userId
    · subst hu
      rw [if_pos rfl, if_pos ⟨rfl, rfl⟩]
      rfl
    · rw [if_neg hu, if_neg fun h => hu h.1.symm, sub_zero]
      rfl
  · rw [if_neg fun h => Bool.false_ne_true h.2, sub_zero]

theorem remaining_of_credits {s s' : AccessStore} (h : s'.credits = s.credits) (u : ℕ) :
    s'.remaining u = s.remaining u := by
  rw [AccessStore.remaining, AccessStore.remaining, h]

/-- **An approval credits what it approves.** -/
theorem remaining_approved (s : AccessStore) (a : Approval) (u : ℕ) :
    (s.approved a).remaining u =
      s.remaining u + if a.order.userId = u then (a.order.credit : ℤ) else 0 := by
  have hcredits : (s.approved a).credits = (s.creditApproval a).credits := by
    show (((s.creditApproval a).pickApproval a).markApproved a).credits = _
    rw [← (pickApproval_tables (s.creditApproval a) a).2]
    unfold AccessStore.markApproved
    split <;> rfl
  rw [remaining_of_credits hcredits]
  unfold AccessStore.creditApproval
  split
  · exact remaining_addCredit s _ _ u
  · rename_i hkind
    rw [BrokerAccessOrder.credit, if_neg hkind, Nat.cast_zero, ite_self, add_zero]

theorem creditOf_of_status {o : BrokerAccessOrder} (h : o.status ≠ .approved) (u : ℕ) :
    creditOf u o = 0 := if_neg fun hand => h hand.2

theorem creditOf_approvedBy (o : BrokerAccessOrder) (adminUserId now u : ℕ) :
    creditOf u (o.approvedBy adminUserId now) = if o.userId = u then (o.credit : ℤ) else 0 :=
  if_congr (and_iff_left rfl) rfl rfl

theorem approvedRequests_of_orders {s s' : AccessStore} (h : s'.orders = s.orders) (u : ℕ) :
    approvedRequests s' u = approvedRequests s u := by
  rw [approvedRequests, approvedRequests, h]

theorem approvedRequests_put {s s' : AccessStore} {o : BrokerAccessOrder}
    (h : s'.orders = s.orders.put o) (u : ℕ) :
    approvedRequests s' u = approvedRequests s u + creditOf u o -
      ((s.orders.get o.id).map (creditOf u)).getD 0 := by
  rw [approvedRequests, h]
  exact Table.sum_put s.orders o (creditOf u)

/-- The same, over a row that counts for nothing. -/
theorem approvedRequests_put_zero {s s' : AccessStore} {o : BrokerAccessOrder}
    (h : s'.orders = s.orders.put o) (hold : ∀ old ∈ s.orders.get o.id, old.status ≠ .approved)
    (u : ℕ) : approvedRequests s' u = approvedRequests s u + creditOf u o := by
  rw [approvedRequests_put h]
  cases hget : s.orders.get o.id with
  | none => exact sub_zero _
  | some old =>
      rw [Option.map_some, Option.getD_some, creditOf_of_status (hold old hget), sub_zero]

/-- **What is left less what was bought** moves with gifts, charges and refunds only. -/
theorem balance_access {s : AccessStore} (h : Held held s) (c : AccessCmd)
    (hallowed : holdAllowed (held pid) (.inr c)) (u : ℕ) :
    (accessExec w c s).2.remaining u - approvedRequests (accessExec w c s).2 u =
      s.remaining u - approvedRequests s u + grantOf u (.act pid (.inr c) (accessExec w c s).1) +
        refundOf u (.act pid (.inr c) (accessExec w c s).1) -
        useOf u (.act pid (.inr c) (accessExec w c s).1) := by
  cases c with
  | takeCredit userId =>
      show (s.takeCredit userId).2.remaining u - approvedRequests (s.takeCredit userId).2 u =
        s.remaining u - approvedRequests s u + 0 + 0 -
          if userId = u ∧ (s.takeCredit userId).1 = true then 1 else 0
      rw [remaining_takeCredit, approvedRequests_of_orders (takeCredit_orders s userId).1]
      ring
  | refundCredit userId =>
      show (s.addCredit userId 1).remaining u - approvedRequests (s.addCredit userId 1) u =
        s.remaining u - approvedRequests s u + 0 + (if userId = u then 1 else 0) - 0
      have horders : approvedRequests (s.addCredit userId 1) u = approvedRequests s u :=
        approvedRequests_of_orders rfl u
      rw [remaining_addCredit, horders, Nat.cast_one]
      ring
  | grantCredit userId requests =>
      show (s.addCredit userId requests).remaining u - approvedRequests (s.addCredit userId requests) u =
        s.remaining u - approvedRequests s u + (if userId = u then (requests : ℤ) else 0) + 0 - 0
      have horders : approvedRequests (s.addCredit userId requests) u = approvedRequests s u :=
        approvedRequests_of_orders rfl u
      rw [remaining_addCredit, horders]
      ring
  | commitSelection userId ids now =>
      obtain ⟨horders, hcredits, _⟩ := commitSelection_tables s userId ids now
      show (s.commitSelection userId ids now).remaining u -
        approvedRequests (s.commitSelection userId ids now) u =
          s.remaining u - approvedRequests s u + 0 + 0 - 0
      rw [remaining_of_credits hcredits, approvedRequests_of_orders horders]
      ring
  | saveOrder o =>
      show (if w.fails = true then (none, s) else s.saveOrder o).2.remaining u -
        approvedRequests (if w.fails = true then (none, s) else s.saveOrder o).2 u =
          s.remaining u - approvedRequests s u + 0 + 0 - 0
      split
      · ring
      · have hstatus : o.status = .receiptSubmitted := hallowed
        have hput : approvedRequests (s.saveOrder o).2 u =
            approvedRequests s u + creditOf u (s.newOrder o) := by
          apply approvedRequests_put_zero rfl
          intro old hold
          rw [show (s.newOrder o).id = s.orders.fresh from rfl, Table.get_fresh] at hold
          cases hold
        rw [hput, creditOf_of_status (by rw [show (s.newOrder o).status = o.status from rfl, hstatus]
                                         decide)]
        show s.remaining u - _ = _
        ring
  | commitApproval a =>
      obtain ⟨hheld, hsubmitted⟩ := hallowed
      have hget := h.read pid _ _ hheld
      show (if w.fails = true then (false, s) else (true, s.approved a)).2.remaining u -
        approvedRequests (if w.fails = true then (false, s) else (true, s.approved a)).2 u =
          s.remaining u - approvedRequests s u + 0 + 0 - 0
      split
      · ring
      · have hput : approvedRequests (s.approved a) u =
            approvedRequests s u + creditOf u (a.order.approvedBy a.adminUserId a.now) := by
          apply approvedRequests_put_zero (approved_orders hget)
          intro old hold
          rw [show (a.order.approvedBy a.adminUserId a.now).id = a.order.id from rfl, hget] at hold
          obtain rfl := Option.some.inj hold
          rw [hsubmitted]
          decide
        rw [remaining_approved, hput, creditOf_approvedBy]
        ring
  | rejectSubmitted id adminUserId reason now =>
      show (s.rejectSubmitted id adminUserId reason now).2.remaining u -
        approvedRequests (s.rejectSubmitted id adminUserId reason now).2 u =
          s.remaining u - approvedRequests s u + 0 + 0 - 0
      unfold AccessStore.rejectSubmitted
      cases hget : s.orders.get id with
      | none => ring
      | some o =>
          dsimp only
          split
          · rename_i hsubmitted
            have hid : o.id = id := Table.key_of_get hget
            rw [approvedRequests_put_zero (s := s) (o := o.rejectedBy adminUserId reason now) rfl,
              creditOf_of_status (by simp [BrokerAccessOrder.rejectedBy])]
            · show s.remaining u - _ = _
              ring
            · intro old hold
              rw [show (o.rejectedBy adminUserId reason now).id = id from hid, hget] at hold
              obtain rfl := Option.some.inj hold
              rw [hsubmitted]
              decide
          · ring
  | _ =>
      show s.remaining u - approvedRequests s u = s.remaining u - approvedRequests s u + 0 + 0 - 0
      ring

theorem balance_exec (h : Held held s.access) (cmd : BrokerCmd) (hallowed : holdAllowed (held pid) cmd)
    (u : ℕ) :
    (exec w cmd s).2.access.remaining u - approvedRequests (exec w cmd s).2.access u =
      s.access.remaining u - approvedRequests s.access u +
        grantOf u (.act pid cmd (exec w cmd s).1) + refundOf u (.act pid cmd (exec w cmd s).1) -
        useOf u (.act pid cmd (exec w cmd s).1) := by
  cases cmd with
  | inl c =>
      rw [exec_inl_access]
      show _ = s.access.remaining u - approvedRequests s.access u + 0 + 0 - 0
      ring
  | inr c => exact balance_access h c hallowed u

/-- No statement takes a credit below zero. -/
theorem nonneg_exec (cmd : BrokerCmd) (h : ∀ u, 0 ≤ s.access.remaining u) (u : ℕ) :
    0 ≤ (exec w cmd s).2.access.remaining u := by
  have hadd : ∀ userId count, 0 ≤ (s.access.addCredit userId count).remaining u := by
    intro userId count
    rw [remaining_addCredit]
    have hu := h u
    split <;> omega
  cases cmd with
  | inl c =>
      rw [exec_inl_access]
      exact h u
  | inr c =>
      cases c with
      | takeCredit userId =>
          show 0 ≤ (s.access.takeCredit userId).2.remaining u
          rw [remaining_takeCredit]
          have hu := h u
          split
          · rename_i htaken
            -- the decrement found a positive number
            have hpos : 0 < s.access.remaining userId := by
              by_contra hnot
              rw [AccessStore.takeCredit, if_neg hnot] at htaken
              exact Bool.false_ne_true htaken.2
            rw [htaken.1] at hpos
            omega
          · omega
      | refundCredit userId => exact hadd userId 1
      | grantCredit userId requests => exact hadd userId requests
      | commitSelection userId ids now =>
          show 0 ≤ (s.access.commitSelection userId ids now).remaining u
          rw [remaining_of_credits (commitSelection_tables s.access userId ids now).2.1]
          exact h u
      | saveOrder o =>
          show 0 ≤ (if w.fails = true then (none, s.access) else s.access.saveOrder o).2.remaining u
          split
          · exact h u
          · exact h u
      | commitApproval a =>
          show 0 ≤ (if w.fails = true then (false, s.access)
            else (true, s.access.approved a)).2.remaining u
          split
          · exact h u
          · rw [remaining_approved]
            have hu := h u
            split <;> omega
      | rejectSubmitted id adminUserId reason now =>
          show 0 ≤ (s.access.rejectSubmitted id adminUserId reason now).2.remaining u
          unfold AccessStore.rejectSubmitted
          split
          · split <;> exact h u
          · exact h u
      | _ => exact h u

end OneStatement

/-! ### Every run -/

section Run

variable {cfg : Setup} {s₀ : Store} {tr : List (Event Resp)} {b c : Conf Resp ServiceError Store}

/-- Any run of these calls. -/
abbrev CreditRun (cfg : Setup) (s₀ : Store) :
    List (Event Resp) → Conf Resp ServiceError Store → Prop :=
  (brokerMachine (creditProgram cfg)).Run (fun _ _ _ => True) (.start s₀)

/-- The order every call holds after a trace. -/
def holds (tr : List (Event Resp)) : ℕ → Hold := stateOf holdMonitor none tr

theorem holds_act (tr : List (Event Resp)) (pid : ℕ) (c : BrokerCmd) (r : Resp c) :
    holds (.act pid c r :: tr) = Function.update (holds tr) pid (holdNext (holds tr pid) c r) :=
  stateOf_act tr pid c r

theorem holdAnswers_exec (w : World) (q : Hold) (c : BrokerCmd) (s : Store) :
    holdAnswers q c (exec w c s).1 := by
  cases c with
  | inl c => trivial
  | inr c =>
      cases c with
      | lockOrder id =>
          intro o ho
          exact Table.key_of_get ho
      | _ => trivial

/-- **What a statement of a run is allowed.** -/
theorem run_allowed {pid : ℕ} {cmd : BrokerCmd} {k : Resp cmd → Broker Unit}
    (h : CreditRun cfg s₀ tr b) (hpool : b.pool[pid]? = some (.call cmd k)) :
    holdAllowed (holds tr pid) cmd := by
  refine Run.allows (μ := holdMonitor) (F := fun _ => True) ?_ ?_ h hpool
  · intro call s p s' hbegin
    obtain ⟨rfl, _⟩ := Prod.mk.inj (Option.some.inj hbegin)
    exact accepts_creditProgram cfg call
  · intro _ a _ w c' r' s' q hx _
    rw [show (brokerMachine (creditProgram cfg)).exec w c' a.store =
      if waits c' a.store then none else some (exec w c' a.store) from rfl] at hx
    split at hx
    · cases hx
    · have hanswer := congrArg Prod.fst (Option.some.inj hx)
      rw [← show (exec w c' a.store).1 = r' from hanswer]
      exact holdAnswers_exec w q c' a.store

/-- The row stands decided. -/
def DecidedRow (s : Store) (id : ℕ) (o : BrokerAccessOrder) : Prop :=
  s.access.orders.get id = some o ∧ o.status ≠ .receiptSubmitted

/-- What a run keeps: rows that are held, credits that are not negative, the balance, and one decision
an order. -/
structure Kept (s₀ : Store) (tr : List (Event Resp)) (s : Store) : Prop where
  held : Held (holds tr) s.access
  nonneg : ∀ u, 0 ≤ s.access.remaining u
  balance : ∀ u, s.access.remaining u - approvedRequests s.access u =
    s₀.access.remaining u - approvedRequests s₀.access u + Tally (grantOf u) tr +
      Tally (refundOf u) tr - Tally (useOf u) tr
  decided : ∀ id, Tally (decisionOf id) tr = 0 ∨
    (Tally (decisionOf id) tr = 1 ∧ ∃ o, DecidedRow s id o)

/-- A decided row is what it was, after any statement. -/
theorem OrderStep.keeps {s s' : Store} {e : Event Resp} {id : ℕ} {o : BrokerAccessOrder}
    (h : OrderStep s.access s'.access e) (ho : DecidedRow s id o) : DecidedRow s' id o := by
  refine ⟨?_, ho.2⟩
  cases h with
  | same horders _ =>
      rw [horders]
      exact ho.1
  | submitted x hnew horders _ _ =>
      rw [horders, Table.get_put_of_ne]
      · exact ho.1
      · rintro rfl
        exact absurd (hnew.symm.trans ho.1) (by simp)
  | decided x x' hold horders hbefore _ _ =>
      rw [horders, Table.get_put_of_ne]
      · exact ho.1
      · rintro rfl
        obtain rfl := Option.some.inj (hold.symm.trans ho.1)
        exact ho.2 hbefore

/-- The tally of an order's decisions, after one more statement. -/
theorem OrderStep.tally {s s' : Store} {e : Event Resp} {id : ℕ}
    (h : OrderStep s.access s'.access e)
    (hbefore : Tally (decisionOf id) tr = 0 ∨
      (Tally (decisionOf id) tr = 1 ∧ ∃ o, DecidedRow s id o)) :
    Tally (decisionOf id) (e :: tr) = 0 ∨
      (Tally (decisionOf id) (e :: tr) = 1 ∧ ∃ o, DecidedRow s' id o) := by
  have hkeep : decisionOf id e = 0 → Tally (decisionOf id) (e :: tr) = 0 ∨
      (Tally (decisionOf id) (e :: tr) = 1 ∧ ∃ o, DecidedRow s' id o) := by
    intro hzero
    rw [tally_cons, hzero, zero_add]
    rcases hbefore with hnone | ⟨hone, o, ho⟩
    · exact .inl hnone
    · exact .inr ⟨hone, o, h.keeps ho⟩
  cases h with
  | same _ hcount => exact hkeep (hcount id)
  | submitted _ _ _ _ hcount => exact hkeep (hcount id)
  | decided x x' hold horders hsubmitted hafter hcount =>
      by_cases hid : x'.id = id
      · -- the order was undecided, so nothing had decided it
        subst hid
        rcases hbefore with hnone | ⟨_, o, ho⟩
        · right
          rw [tally_cons, hcount, if_pos rfl, hnone]
          refine ⟨by omega, x', ?_, hafter⟩
          rw [horders]
          exact Table.get_put_self _ x'
        · obtain rfl := Option.some.inj (hold.symm.trans ho.1)
          exact absurd hsubmitted ho.2
      · exact hkeep ((hcount id).trans (if_neg hid))

theorem Kept.start (hinit : ∀ u, 0 ≤ s₀.access.remaining u) : Kept s₀ [] s₀ := by
  refine ⟨⟨exclusive_of_none fun _ => rfl, ?_⟩, hinit, ?_, fun _ => .inl rfl⟩
  · intro pid id o h
    cases h
  · intro u
    simp

/-- **One step.** -/
theorem Kept.step {l : (brokerMachine (creditProgram cfg)).Label} {e : Event Resp}
    (h : CreditRun cfg s₀ tr b) (hkept : Kept s₀ tr b.store)
    (hs : (brokerMachine (creditProgram cfg)).step b l = some (e, c)) :
    Kept s₀ (e :: tr) c.store ∧ ∀ id o, DecidedRow b.store id o → DecidedRow c.store id o := by
  rcases brokerStep_cases hs with ⟨o, rfl, rfl⟩ | ⟨call, rfl, rfl⟩ | ⟨pid, w, cmd, k, hpool, hfree, rfl, rfl⟩
  · refine ⟨⟨⟨hkept.held.exclusive, hkept.held.read⟩, hkept.nonneg, ?_, ?_⟩, fun _ _ ho => ho⟩
    · intro u
      have hbalance := hkept.balance u
      simp only [tally_cons, grantOf, refundOf, useOf, zero_add]
      exact hbalance
    · intro id
      simp only [tally_cons, decisionOf, zero_add]
      exact hkept.decided id
  · refine ⟨⟨⟨hkept.held.exclusive, hkept.held.read⟩, hkept.nonneg, ?_, ?_⟩, fun _ _ ho => ho⟩
    · intro u
      have hbalance := hkept.balance u
      simp only [tally_cons, grantOf, refundOf, useOf, zero_add]
      exact hbalance
    · intro id
      simp only [tally_cons, decisionOf, zero_add]
      exact hkept.decided id
  · have hallowed := run_allowed h hpool
    have horder := orderStep_exec (w := w) hkept.held cmd hallowed
    refine ⟨⟨?_, nonneg_exec cmd hkept.nonneg, ?_, fun id => horder.tally (hkept.decided id)⟩,
      fun id o ho => horder.keeps ho⟩
    · rw [holds_act]
      exact hkept.held.step cmd hallowed hfree
    · intro u
      rw [balance_exec hkept.held cmd hallowed u, hkept.balance u]
      simp only [tally_cons]
      ring

theorem run_kept (hinit : ∀ u, 0 ≤ s₀.access.remaining u) (h : CreditRun cfg s₀ tr b) :
    Kept s₀ tr b.store := by
  refine Machine.Run.invariant (fun tr b => Kept s₀ tr b.store) (Kept.start hinit) ?_ h
  intro tr b l e c hrun hkept hs _
  exact (hkept.step hrun hs).1

end Run

/-- **Broker credit is conserved.**  In every run of these calls, with any saves failing: no credit is
negative; a broker's credit has changed by what it was given, less the charges that succeeded, plus the
refunds, plus the requests of its packages approved meanwhile (from a store with no credit and nothing
approved it is the sum of these); an order is decided at most once; and a decided order is never
decided otherwise. -/
theorem credit_conserved (cfg : Setup) {s₀ : Store} {tr : List (Event Resp)}
    {b : Conf Resp ServiceError Store} (hinit : ∀ u, 0 ≤ s₀.access.remaining u)
    (h : CreditRun cfg s₀ tr b) :
    (∀ u, 0 ≤ b.store.access.remaining u) ∧
      (∀ u, b.store.access.remaining u = s₀.access.remaining u + Tally (grantOf u) tr +
        (approvedRequests b.store.access u - approvedRequests s₀.access u) - Tally (useOf u) tr +
          Tally (refundOf u) tr) ∧
      (∀ id, Tally (decisionOf id) tr ≤ 1) ∧
      ∀ x, CreditRun cfg s₀ x.1 x.2 →
        (brokerMachine (creditProgram cfg)).Later (fun _ _ _ => True) x (tr, b) →
        ∀ id o, DecidedRow x.2.store id o → DecidedRow b.store id o := by
  have hkept := run_kept hinit h
  refine ⟨hkept.nonneg, ?_, ?_, ?_⟩
  · intro u
    have hbalance := hkept.balance u
    omega
  · intro id
    rcases hkept.decided id with hnone | ⟨hone, _⟩ <;> omega
  · intro x hx hlater id o ho
    refine Machine.Run.relates (y := (tr, b))
      (fun b c => ∀ id o, DecidedRow b.store id o → DecidedRow c.store id o) (fun _ _ _ h => h) ?_ hx
      hlater id o ho
    intro tr' b' l e c b₀ hrun hs _ hbefore id o ho
    exact ((run_kept hinit hrun).step hrun hs).2 id o (hbefore id o ho)

/-! ### A run -/

/-- What a broker's request is answered elsewhere when nothing stands in its way. -/
def brokerAnswers : RequestAnswers where
  broker := true
  driverFor := .ok ⟨"", "", "", "", none, none, none, none, none⟩
  missing := []
  canSee := true
  border := .ok none
  useRequest := .ok true

/-- Packages of three are sold; user 5 is a broker with nothing yet, and one load is open. -/
def newBroker : Store where
  trips := TripRun.oneLoad
  access :=
    { orders := .empty
      periods := .empty
      credits := .empty
      policy := ⟨none, true, 3, 10, "IRR"⟩
      companies := []
      brokers := [5]
      orderLocks := [] }

/-- Every optional service, and brokers bound by the policy. -/
def soldPackages : Setup := ⟨⟨true, true⟩, false, fun _ => ""⟩

/-- Nothing held, and saves as told. -/
def saving (fails : Bool) : World := ⟨none, fails⟩

/-- One gift; a request whose save fails; two packages bought, approved while a rejection waits; a
request. -/
def giftAndPackage : List (brokerMachine (creditProgram soldPackages)).Label :=
  [[.start (.grantRequests 5 1)], List.replicate 3 (.act 0 (saving false)),
    [.start (.request brokerAnswers 5 1 none)], List.replicate 7 (.act 1 (saving false)),
    List.replicate 2 (.act 1 (saving true)),
    [.start (.submitPackageOrder 5 2 "r")], List.replicate 4 (.act 2 (saving false)),
    [.start (.approveOrder 1 9), .start (.rejectOrder 1 9 "")], List.replicate 2 (.act 3 (saving false)),
    [.act 4 (saving false)], List.replicate 2 (.act 3 (saving false)), [.act 4 (saving false)],
    [.start (.request brokerAnswers 5 1 none)], List.replicate 10 (.act 5 (saving false))].flatten

/-- Where it ends. -/
def giftedAndBought : Option (List (Event Resp) × Conf Resp ServiceError Store) :=
  (brokerMachine (creditProgram soldPackages)).play (fun _ _ _ => True) [] (.start newBroker)
    giftAndPackage

theorem credit_conserved_giftAndPackage :
    ∃ tr b, giftedAndBought = some (tr, b) ∧ b.store.access.remaining 5 = 6 ∧
      b.store.access.remaining 5 = 0 + Tally (grantOf 5) tr +
        (approvedRequests b.store.access 5 - 0) - Tally (useOf 5) tr + Tally (refundOf 5) tr ∧
      Tally (useOf 5) tr = 2 ∧ Tally (decisionOf 1) tr ≤ 1 := by
  have hend : (giftedAndBought.map fun y =>
      (y.2.store.access.remaining 5, Tally (useOf 5) y.1)) = some (6, 2) := by decide
  obtain ⟨⟨tr, b⟩, hplay, hvalues⟩ := Option.map_eq_some_iff.mp hend
  obtain ⟨hsix, htwo⟩ := Prod.mk.inj hvalues
  have hrun : CreditRun soldPackages newBroker tr b := Machine.play_run .nil hplay
  obtain ⟨_, hbalance, honce, _⟩ := credit_conserved soldPackages (fun _ => le_refl 0) hrun
  exact ⟨tr, b, hplay, hsix, hbalance 5, htwo, honce 1⟩

end TransportBackend.BrokerCredit
