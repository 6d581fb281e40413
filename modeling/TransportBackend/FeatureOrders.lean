import TransportBackend.FeatureGrants
import TransportBackend.LockHolders

/-!
# An order opens its menus once

An approval locks the order's row, sees that it waits for a review, inserts one period for each menu and commits; what
throws is rolled back.  A rejection updates the row only while it waits.

* `Opens` — one period for each menu of an order, of its length, for its company;
* `Settled` — the periods that name an order are those, when it is approved, and none otherwise;
* `orders_open_once` — **every run keeps that**, however approvals and rejections of one order overlap, and a verdict
  is final;
* `never_stuck` — **no call waits for ever**: as long as a call is in progress some call can go on, and when none is,
  no order is locked.
-/

namespace TransportBackend.FeatureOrders

open TransportBackend.AtomicProgram
open TransportBackend.AtomicProgram.Prog
open TransportBackend.CompanyFeatures
open TransportBackend.FeatureGrants (exec_eq exec_grants rowsOf noGrants)
open TransportBackend.InterleavedRun
open TransportBackend.KeyedTable
open TransportBackend.LockHolders
open TransportBackend.MonitoredProgram
open TransportBackend.PlanExpiry (CompanyFeature CompanyFeatureGrant DAY_MS)

/-! ### What an order opens -/

/-- One period for each menu of the order. -/
structure Opens (o : CompanyFeatureOrder) (grants : List CompanyFeatureGrant) : Prop where
  menus : (grants.map CompanyFeatureGrant.feature).Perm o.menus
  some_menu : o.menus ≠ []
  company : ∀ g ∈ grants, g.userId = o.userId
  lasts : ∀ g ∈ grants, g.expireAt = g.startAt + o.durationDays * DAY_MS
  named : ∀ g ∈ grants, g.orderId = some o.id

/-- The periods that name an order. -/
def grantsOf (s : Store) (orderId : ℕ) : List CompanyFeatureGrant :=
  s.grants.filter fun g => g.orderId = some orderId

/-- The periods that name the order are those it bought, once it is approved; before and otherwise there are none. -/
def Settled (s : Store) (orderId : ℕ) : Prop :=
  match s.orders.get orderId with
  | some o => if o.status = .approved then Opens o (grantsOf s orderId) else grantsOf s orderId = []
  | none => grantsOf s orderId = []

theorem Opens.review {o : CompanyFeatureOrder} {grants : List CompanyFeatureGrant} (h : Opens o grants)
    (status : OrderStatus) (reason : Option String) (adminUserId : Option ℕ) (reviewedAt : Option ℤ) :
    Opens { o with status := status, rejectionReason := reason, reviewedBy := adminUserId, reviewedAt := reviewedAt } grants :=
  ⟨h.menus, h.some_menu, h.company, h.lasts, h.named⟩

/-! ### What a call holds -/

/-- The order a call has locked, and its row. -/
abbrev Holding : Type := Option (ℕ × Option CompanyFeatureOrder)

def orderMonitor : Monitor FeatureResp Holding where
  allowed
    | q, .lockOrder _ => q = none
    | q, .rejectSubmitted _ _ _ _ => q = none
    | q, .commitApproval a => ∃ o, q = some (a.orderId, some o) ∧ o.id = a.orderId ∧ o.status = .receiptSubmitted ∧
        Opens o a.grants
    | q, .rollback orderId => ∃ found, q = some (orderId, found)
    | _, .saveOrder o => o.status = .receiptSubmitted
    | _, .saveGrant g => g.orderId = none
    | _, _ => True
  answers
    | _, .lockOrder orderId, found => ∀ o ∈ found, o.id = orderId
    | _, _, _ => True
  next
    | _, .lockOrder orderId, found => some (orderId, found)
    | _, .commitApproval _, _ => none
    | _, .rollback _, _ => none
    | q, _, _ => q

/-- The commands a call that holds nothing may issue at any time. -/
def Plain : FeatureCmd → Prop
  | .lockOrder _ => False
  | .commitApproval _ => False
  | .rollback _ => False
  | .saveOrder o => o.status = .receiptSubmitted
  | .saveGrant g => g.orderId = none
  | _ => True

theorem accepts_plain {α : Type} {p : Features α} (h : p.Within Plain (fun _ _ => True) (fun _ => True)) :
    Accepts orderMonitor p none (fun _ q => q = none) := by
  induction p with
  | ret a => exact rfl
  | throw e => exact rfl
  | call c k ih =>
      obtain ⟨hplain, hrest⟩ := h
      cases c with
      | lockOrder => cases hplain
      | commitApproval => cases hplain
      | rollback => cases hplain
      | saveOrder o => exact ⟨hplain, fun r _ => ih r (hrest r trivial)⟩
      | saveGrant g => exact ⟨hplain, fun r _ => ih r (hrest r trivial)⟩
      | rejectSubmitted => exact ⟨rfl, fun r _ => ih r (hrest r trivial)⟩
      | _ => exact ⟨trivial, fun r _ => ih r (hrest r trivial)⟩

/-- What the loop has made of the first menus. -/
structure Made (o : CompanyFeatureOrder) (features : List CompanyFeature) (grants : List CompanyFeatureGrant) : Prop where
  menus : (grants.map CompanyFeatureGrant.feature).Perm features
  company : ∀ g ∈ grants, g.userId = o.userId
  lasts : ∀ g ∈ grants, g.expireAt = g.startAt + o.durationDays * DAY_MS
  named : ∀ g ∈ grants, g.orderId = some o.id

theorem Made.add {o : CompanyFeatureOrder} {features : List CompanyFeature} {grants : List CompanyFeatureGrant}
    (h : Made o features grants) (feature : CompanyFeature) (now : ℤ) (latest : Option ℤ) :
    Made o (feature :: features) (newGrant o.userId feature o.durationDays now latest (some o.id) :: grants) := by
  refine ⟨h.menus.cons feature, ?_, ?_, ?_⟩ <;> intro g hg <;> rcases List.mem_cons.mp hg with rfl | hg
  · rfl
  · exact h.company g hg
  · rfl
  · exact h.lasts g hg
  · rfl
  · exact h.named g hg

/-- The loop makes one period for each menu. -/
theorem accepts_addGrants (o : CompanyFeatureOrder) (now : ℤ) (features done : List CompanyFeature)
    (own : List CompanyFeatureGrant) (hmade : Made o done own) (q : Holding) :
    Accepts orderMonitor (addGrants o now features own) q
      (outcome (fun grants q' => q' = q ∧ Made o (features.reverse ++ done) grants) (fun _ q' => q' = q)) := by
  induction features generalizing own done with
  | nil => exact ⟨rfl, hmade⟩
  | cons feature features ih =>
      refine ⟨trivial, fun latest _ => ?_⟩
      have hrest := ih (feature :: done) _ (hmade.add feature now latest)
      rw [List.reverse_cons, List.append_assoc]
      exact hrest

theorem accepts_approveIn (orderId adminUserId : ℕ) (now : ℤ) :
    Accepts orderMonitor (approveIn orderId adminUserId now) none
      (outcome (fun _ q => q = none) (fun _ q => ∃ found, q = some (orderId, found))) := by
  unfold approveIn
  rw [accepts_bind, issue, accepts_perform]
  refine ⟨rfl, fun found hfound => ?_⟩
  rw [outcome_ok, accepts_bind, accepts_orThrow]
  refine ⟨fun _ => ⟨found, rfl⟩, fun o ho => ?_⟩
  rw [outcome_ok, accepts_bind, accepts_refuseIf]
  refine ⟨fun _ => ⟨found, rfl⟩, fun hstatus => ?_⟩
  have hstart : Made o [] [] := by constructor <;> simp
  rw [outcome_ok, accepts_bind]
  refine accepts_mono (accepts_addGrants o now o.menus [] [] hstart _) fun out q hout => ?_
  cases out with
  | error e => exact ⟨found, hout⟩
  | ok grants =>
      obtain ⟨rfl, hmade⟩ := hout
      rw [outcome_ok, accepts_bind, accepts_refuseIf]
      refine ⟨fun _ => ⟨found, rfl⟩, fun hne => ?_⟩
      rw [List.append_nil] at hmade
      have hperm := hmade.menus.trans o.menus.reverse_perm
      have hid : o.id = orderId := hfound o ho
      have hopens : Opens o grants := by
        refine ⟨hperm, ?_, hmade.company, hmade.lasts, hmade.named⟩
        intro hnil
        rw [hnil, List.perm_nil, List.map_eq_nil_iff] at hperm
        exact hne hperm
      refine ⟨⟨o, ?_, rfl, not_not.mp hstatus, hopens⟩, fun _ _ => rfl⟩
      show some (orderId, found) = some (o.id, some o)
      rw [ho, hid]

/-- **Every call keeps to its lock**, and lets it go. -/
theorem accepts_call (call : Call) : Accepts orderMonitor call.prog none (fun _ q => q = none) := by
  cases call with
  | approveOrder orderId adminUserId =>
      show Accepts orderMonitor (CompanyFeatures.approveOrder orderId adminUserId) _ _
      rw [CompanyFeatures.approveOrder, accepts_bind, issue, accepts_perform]
      refine ⟨trivial, fun now _ => ?_⟩
      rw [outcome_ok, accepts_bind, accepts_attempt]
      refine accepts_mono (accepts_approveIn orderId adminUserId now) fun out q hout => ?_
      cases out with
      | ok _ => exact hout
      | error e => exact ⟨hout, fun _ _ => rfl⟩
  | rejectOrder orderId adminUserId reason =>
      exact accepts_plain (by simp [Call.prog, CompanyFeatures.rejectOrder, issue, Plain])
  | grant userId feature days => exact accepts_plain (by simp [Call.prog, CompanyFeatures.grant, issue, Plain, newGrant])
  | submitOrder on userId planId receiptPath =>
      exact accepts_plain (by simp [Call.prog, CompanyFeatures.submitOrder, CompanyFeatures.isParent, issue, Plain])
  | submitTierOrder userId tier months receiptPath =>
      exact accepts_plain (by simp [Call.prog, CompanyFeatures.submitTierOrder, CompanyFeatures.isParent, issue, Plain])
  | createPlan plan => exact accepts_plain (by simp [Call.prog, CompanyFeatures.createPlan, issue, Plain])
  | deactivatePlan id => exact accepts_plain (by simp [Call.prog, CompanyFeatures.deactivatePlan, issue, Plain])
  | updateTier tier input => exact accepts_plain (by simp [Call.prog, CompanyFeatures.updateTier, issue, Plain])

/-! ### What a statement keeps -/

/-- The locks are those the calls hold, the rows they hold are still there, and every order is settled. -/
structure Kept (held : ℕ → Holding) (s : Store) : Prop where
  exact : Exact held s.orderLocks
  current : ∀ pid orderId o, held pid = some (orderId, some o) → s.orders.get orderId = some o
  settled : ∀ orderId, Settled s orderId

variable {held : ℕ → Holding} {s s' : Store}

/-- A statement that touches neither orders nor periods nor locks. -/
theorem Kept.frame (h : Kept held s) (horders : s'.orders = s.orders) (hgrants : s'.grants = s.grants)
    (hlocks : s'.orderLocks = s.orderLocks) : Kept held s' := by
  refine ⟨hlocks ▸ h.exact, fun pid orderId o hheld => horders ▸ h.current pid orderId o hheld, fun orderId => ?_⟩
  have hsettled := h.settled orderId
  unfold Settled grantsOf at *
  rw [horders, hgrants]
  exact hsettled

theorem settled_some {orderId : ℕ} {o : CompanyFeatureOrder} (hget : s.orders.get orderId = some o) :
    Settled s orderId ↔ if o.status = .approved then Opens o (grantsOf s orderId) else grantsOf s orderId = [] := by
  rw [Settled, hget]

theorem settled_none {orderId : ℕ} (hget : s.orders.get orderId = none) :
    Settled s orderId ↔ grantsOf s orderId = [] := by
  rw [Settled, hget]

/-- An order that is not approved has opened nothing. -/
theorem Settled.waiting {orderId : ℕ} (h : Settled s orderId) {o : CompanyFeatureOrder}
    (hget : s.orders.get orderId = some o) (hstatus : o.status = .receiptSubmitted) : grantsOf s orderId = [] := by
  have hsettled := (settled_some hget).mp h
  rwa [if_neg (by rw [hstatus]; exact fun h => OrderStatus.noConfusion h)] at hsettled

/-- Another order is written. -/
theorem Settled.of_ne {o : CompanyFeatureOrder} {orderId : ℕ} (h : Settled s orderId) (hne : orderId ≠ o.id)
    (horders : s'.orders = s.orders.put o) (hgrants : grantsOf s' orderId = grantsOf s orderId) :
    Settled s' orderId := by
  unfold Settled at *
  rw [horders, Table.get_put_of_ne hne, hgrants]
  exact h

/-- A new order: nobody holds it, and no period names it. -/
theorem Kept.save (h : Kept held s) {o : CompanyFeatureOrder} (hstatus : o.status = .receiptSubmitted) :
    Kept held { s with orders := s.orders.put { o with id := s.orders.fresh } } := by
  have hfresh : s.orders.get s.orders.fresh = none := s.orders.get_fresh
  refine ⟨h.exact, fun pid orderId o' hheld => ?_, fun orderId => ?_⟩
  · have hget := h.current pid orderId o' hheld
    have hne : orderId ≠ s.orders.fresh := by
      rintro rfl
      rw [hfresh] at hget
      cases hget
    exact (Table.get_put_of_ne (a := { o with id := s.orders.fresh }) hne).trans hget
  · by_cases hnew : orderId = s.orders.fresh
    · subst hnew
      rw [settled_some (o := { o with id := s.orders.fresh }) ((Table.get_put _ _ _).trans (if_pos rfl))]
      rw [if_neg (by rw [hstatus]; exact fun h => OrderStatus.noConfusion h)]
      exact (settled_none hfresh).mp (h.settled s.orders.fresh)
    · exact (h.settled orderId).of_ne (o := { o with id := s.orders.fresh }) hnew rfl rfl

/-- A rejection is of an order nobody holds. -/
theorem Kept.reject (h : Kept held s) {orderId adminUserId : ℕ} {reason : String} {now : ℤ}
    (hfree : orderId ∉ s.orderLocks) : Kept held (s.rejectSubmitted orderId adminUserId reason now).2 := by
  rcases s.rejectSubmitted_cases orderId adminUserId reason now with hsame | ⟨o, o', hget, hwaits, hid, hrejected, hs⟩
  · rw [hsame]
    exact h
  · rw [hs]
    refine ⟨h.exact, fun pid k row hheld => ?_, fun k => ?_⟩
    · have hne : k ≠ orderId := by
        rintro rfl
        exact hfree (h.exact.locked pid k _ hheld)
      exact (Table.get_put_of_ne (hid ▸ hne)).trans (h.current pid k row hheld)
    · by_cases hk : k = orderId
      · subst hk
        rw [Settled, Table.get_put, if_pos hid.symm]
        simp only [hrejected, reduceCtorEq, if_false]
        exact (h.settled k).waiting hget hwaits
      · exact (h.settled k).of_ne (hid ▸ hk) rfl rfl

theorem grantsOf_append {rows : List CompanyFeatureGrant} (h : s'.grants = rows ++ s.grants) (orderId : ℕ) :
    grantsOf s' orderId = (rows.filter fun g => g.orderId = some orderId) ++ grantsOf s orderId := by
  rw [grantsOf, h, List.filter_append]
  rfl

/-- **An approval opens the menus of the order it holds**, and lets it go. -/
theorem Kept.commit (h : Kept held s) {pid : ℕ} {a : Approval} {o : CompanyFeatureOrder}
    (hheld : held pid = some (a.orderId, some o)) (hid : o.id = a.orderId) (hstatus : o.status = .receiptSubmitted)
    (hopens : Opens o a.grants) : Kept (Function.update held pid none) (s.commitApproval a) := by
  have hget : s.orders.get a.orderId = some o := h.current pid a.orderId o hheld
  have horders : (s.commitApproval a).orders = s.orders.put
      { o with status := .approved, reviewedBy := some a.reviewedBy, reviewedAt := some a.reviewedAt } := by
    show s.approvedOrders a = _
    rw [Store.approvedOrders, hget]
  have hgrants : (s.commitApproval a).grants = a.grants ++ s.grants := rfl
  refine ⟨h.exact.release hheld, fun other k o' hother => ?_, fun k => ?_⟩
  · obtain ⟨hother, hne⟩ := h.exact.others hheld hother
    rw [horders, Table.get_put_of_ne (hid ▸ hne)]
    exact h.current other k o' hother
  · by_cases hk : k = a.orderId
    · subst hk
      have hrows : grantsOf (s.commitApproval a) a.orderId = a.grants := by
        rw [grantsOf_append hgrants, (h.settled _).waiting hget hstatus, List.append_nil, List.filter_eq_self]
        intro g hg
        rw [hopens.named g hg, hid]
        exact decide_eq_true rfl
      rw [settled_some (by rw [horders]; exact (Table.get_put _ _ _).trans (if_pos hid.symm)), if_pos rfl, hrows]
      exact hopens.review .approved o.rejectionReason (some a.reviewedBy) (some a.reviewedAt)
    · refine (h.settled k).of_ne (hid ▸ hk) horders ?_
      rw [grantsOf_append hgrants, List.filter_eq_nil_iff.mpr, List.nil_append]
      intro g hg hname
      rw [hopens.named g hg, decide_eq_true_eq, hid] at hname
      exact hk (Option.some.inj hname).symm

/-- **Every statement that is allowed keeps all of this.** -/
theorem Kept.exec (h : Kept held s) {pid : ℕ} {c : FeatureCmd} (hallowed : orderMonitor.allowed (held pid) c)
    (hfree : blocked c s = false) :
    Kept (Function.update held pid (orderMonitor.next (held pid) c (featureExec c s).1)) (featureExec c s).2 := by
  have hsame : ∀ r : FeatureResp c, orderMonitor.next (held pid) c r = held pid →
      Function.update held pid (orderMonitor.next (held pid) c r) = held := fun r heq => by
    rw [heq, Function.update_eq_self]
  cases c with
  | lockOrder orderId =>
      have hnot : orderId ∉ s.orderLocks := by simpa [blocked] using hfree
      have hnone : held pid = none := hallowed
      refine ⟨h.exact.lock hnone hnot _, fun other k o hother => ?_, h.settled⟩
      rcases update_some_cases hother with ⟨_, heq⟩ | ⟨_, hother⟩
      · obtain ⟨rfl, hget⟩ := Prod.mk.inj heq
        exact hget.symm
      · exact h.current other k o hother
  | commitApproval a =>
      obtain ⟨o, hheld, hid, hstatus, hopens⟩ := hallowed
      exact h.commit hheld hid hstatus hopens
  | rollback orderId =>
      obtain ⟨found, hheld⟩ := hallowed
      refine ⟨h.exact.release hheld, fun other k o hother => ?_, h.settled⟩
      exact h.current other k o (h.exact.others hheld hother).1
  | rejectSubmitted orderId adminUserId reason now =>
      rw [hsame _ rfl]
      exact h.reject (by simpa [blocked] using hfree)
  | saveOrder o =>
      rw [hsame _ rfl]
      exact h.save hallowed
  | saveGrant g =>
      rw [hsame _ rfl]
      refine ⟨h.exact, h.current, fun orderId => ?_⟩
      have hrows : grantsOf (featureExec (.saveGrant g) s).2 orderId = grantsOf s orderId := by
        have hname : g.orderId = none := hallowed
        exact List.filter_cons_of_neg (by rw [hname]; simp)
      have hsettled := h.settled orderId
      unfold Settled at *
      rw [hrows]
      exact hsettled
  | deactivate planId =>
      rw [hsame _ rfl]
      obtain ⟨plans, hs⟩ := s.deactivate_plans planId
      show Kept held (s.deactivate planId).2
      rw [hs]
      exact h.frame rfl rfl rfl
  | updateTier plan =>
      rw [hsame _ rfl]
      obtain ⟨tiers, hs⟩ := s.updateTier_tiers plan
      show Kept held (s.updateTier plan).2
      rw [hs]
      exact h.frame rfl rfl rfl
  | _ =>
      rw [hsame _ rfl]
      exact h.frame rfl rfl rfl

/-- **A verdict is final**: a decided order is not written again, and no other period names it. -/
theorem Kept.decided (h : Kept held s) {pid : ℕ} {c : FeatureCmd} (hallowed : orderMonitor.allowed (held pid) c)
    {orderId : ℕ} {o : CompanyFeatureOrder} (hget : s.orders.get orderId = some o)
    (hdecided : o.status ≠ .receiptSubmitted) :
    (featureExec c s).2.orders.get orderId = some o ∧ grantsOf (featureExec c s).2 orderId = grantsOf s orderId := by
  cases c with
  | commitApproval a =>
      obtain ⟨o', hheld, hid, hstatus, hopens⟩ := hallowed
      have hheldGet : s.orders.get a.orderId = some o' := h.current pid a.orderId o' hheld
      have hne : orderId ≠ a.orderId := by
        rintro rfl
        rw [hheldGet] at hget
        exact hdecided (Option.some.inj hget ▸ hstatus)
      constructor
      · show (s.approvedOrders a).get orderId = some o
        rw [Store.approvedOrders, hheldGet]
        exact (Table.get_put_of_ne (hid ▸ hne)).trans hget
      · have hgrants : (featureExec (.commitApproval a) s).2.grants = a.grants ++ s.grants := rfl
        rw [grantsOf_append hgrants, List.filter_eq_nil_iff.mpr, List.nil_append]
        intro g hg hname
        rw [hopens.named g hg, decide_eq_true_eq, hid] at hname
        exact hne (Option.some.inj hname).symm
  | rejectSubmitted id adminUserId reason now =>
      show (s.rejectSubmitted id adminUserId reason now).2.orders.get orderId = some o ∧
        grantsOf (s.rejectSubmitted id adminUserId reason now).2 orderId = grantsOf s orderId
      rcases s.rejectSubmitted_cases id adminUserId reason now with hs | ⟨o₁, o₂, hget₁, hwaits, hid, _, hs⟩
      · rw [hs]
        exact ⟨hget, rfl⟩
      · have hne : orderId ≠ o₂.id := by
          rw [hid]
          rintro rfl
          rw [hget₁] at hget
          exact hdecided (Option.some.inj hget ▸ hwaits)
        rw [hs]
        exact ⟨(Table.get_put_of_ne hne).trans hget, rfl⟩
  | saveOrder o' =>
      refine ⟨(Table.get_put_of_ne ?_).trans hget, rfl⟩
      rintro rfl
      rw [s.orders.get_fresh] at hget
      cases hget
  | saveGrant g =>
      have hname : g.orderId = none := hallowed
      exact ⟨hget, List.filter_cons_of_neg (by rw [hname]; simp)⟩
  | deactivate planId =>
      obtain ⟨plans, hs⟩ := s.deactivate_plans planId
      show (s.deactivate planId).2.orders.get orderId = some o ∧ grantsOf (s.deactivate planId).2 orderId = _
      rw [hs]
      exact ⟨hget, rfl⟩
  | updateTier plan =>
      obtain ⟨tiers, hs⟩ := s.updateTier_tiers plan
      show (s.updateTier plan).2.orders.get orderId = some o ∧ grantsOf (s.updateTier plan).2 orderId = _
      rw [hs]
      exact ⟨hget, rfl⟩
  | _ => exact ⟨hget, rfl⟩

/-! ### Runs -/

section Runs

variable {Ok : List (Event FeatureResp) → Conf FeatureResp ServiceError Store → Event FeatureResp → Prop} {s₀ : Store}
  {tr : List (Event FeatureResp)} {b : Conf FeatureResp ServiceError Store}

/-- What the call holds after a trace. -/
def holdingOf (tr : List (Event FeatureResp)) (pid : ℕ) : Holding := stateOf orderMonitor none tr pid

theorem answers_lock {choice : machine.Choice} {c : FeatureCmd} {r : FeatureResp c} (h : machine.exec choice c s = some (r, s'))
    (q : Holding) : orderMonitor.answers q c r := by
  cases c with
  | lockOrder orderId =>
      intro o ho
      rw [← (Prod.mk.inj (exec_eq h)).1] at ho
      exact Table.key_of_get ho
  | _ => exact trivial

/-- No call that has not started holds anything, and what is left of every call keeps to its lock. -/
theorem run_accepted (h : machine.Run Ok (.start s₀) tr b) :
    (∀ pid, b.pool.length ≤ pid → holdingOf tr pid = none) ∧
      ∀ pid p, b.pool[pid]? = some p → Accepts orderMonitor p (holdingOf tr pid) (fun _ q => q = none) := by
  refine Run.accepted (F := fun q => q = none) ?_ ?_ h
  · intro call s p s' hbegin
    obtain rfl : call.prog = p := (Prod.mk.inj (Option.some.inj hbegin)).1
    exact accepts_call call
  · exact fun _ _ _ _ _ _ _ q hx _ => answers_lock hx q

theorem exec_free {choice : machine.Choice} {c : FeatureCmd} {r : FeatureResp c}
    (h : machine.exec choice c s = some (r, s')) : blocked c s = false := by
  cases hblocked : blocked c s with
  | false => rfl
  | true =>
      unfold machine at h
      dsimp only at h
      rw [hblocked] at h
      cases h

theorem kept_run (hlocks : s₀.orderLocks = []) (hsettled : ∀ orderId, Settled s₀ orderId)
    (h : machine.Run Ok (.start s₀) tr b) : Kept (holdingOf tr) b.store := by
  refine Machine.Run.invariant (fun tr b => Kept (holdingOf tr) b.store) ?_ ?_ h
  · refine ⟨?_, fun _ _ _ hheld => absurd hheld (Option.some_ne_none _).symm, hsettled⟩
    show Exact _ s₀.orderLocks
    rw [hlocks]
    exact exact_of_none fun _ => rfl
  · intro tr b l e c hrun hkept hs _
    cases l with
    | outside o =>
        obtain ⟨s, ho, rfl, rfl⟩ := Machine.step_outside hs
        obtain rfl := Option.some.inj ho
        cases o with
        | tick ms => exact hkept.frame rfl rfl rfl
        | saveUser user => exact hkept.frame rfl rfl rfl
    | start call =>
        obtain ⟨p, s, hbegin, rfl, rfl⟩ := Machine.step_start hs
        obtain rfl : b.store = s := (Prod.mk.inj (Option.some.inj hbegin)).2
        exact hkept
    | act pid choice =>
        obtain ⟨cmd, next, r, s, hcall, hx, rfl, rfl⟩ := Machine.step_act hs
        have hallowed : orderMonitor.allowed (holdingOf tr pid) cmd := ((run_accepted hrun).2 pid _ hcall).1
        have hnext := hkept.exec hallowed (exec_free hx)
        rw [exec_eq hx] at hnext
        have hheld : holdingOf (.act pid cmd r :: tr) =
            Function.update (holdingOf tr) pid (orderMonitor.next (holdingOf tr pid) cmd r) :=
          stateOf_act tr pid cmd r
        rw [hheld]
        exact hnext

/-- **An order opens its menus once.**  At any point of any run and any later one: the periods that name an order are
one for each of its menus, of its length and for its company, when it is approved, and none otherwise; and once it is
decided neither its row nor its periods change. -/
theorem orders_open_once (hlocks : s₀.orderLocks = []) (hsettled : ∀ orderId, Settled s₀ orderId)
    {x y : List (Event FeatureResp) × Conf FeatureResp ServiceError Store} (hx : machine.Run Ok (.start s₀) x.1 x.2)
    (hxy : machine.Later Ok x y) (orderId : ℕ) :
    Settled y.2.store orderId ∧ ∀ o, x.2.store.orders.get orderId = some o → o.status ≠ .receiptSubmitted →
      y.2.store.orders.get orderId = some o ∧ grantsOf y.2.store orderId = grantsOf x.2.store orderId := by
  refine ⟨(kept_run hlocks hsettled (hx.later hxy)).settled orderId, ?_⟩
  refine Machine.Run.relates (fun a c => ∀ o, a.store.orders.get orderId = some o → o.status ≠ .receiptSubmitted →
    c.store.orders.get orderId = some o ∧ grantsOf c.store orderId = grantsOf a.store orderId)
    (fun _ _ hget _ => ⟨hget, rfl⟩) ?_ hx hxy
  intro tr b l e c a hrun hs _ hkeep o hget hdecided
  obtain ⟨hrow, hgrants⟩ := hkeep o hget hdecided
  cases l with
  | outside event =>
      obtain ⟨s, ho, rfl, rfl⟩ := Machine.step_outside hs
      obtain rfl := Option.some.inj ho
      cases event with
      | tick ms => exact ⟨hrow, hgrants⟩
      | saveUser user => exact ⟨hrow, hgrants⟩
  | start call =>
      obtain ⟨p, s, hbegin, rfl, rfl⟩ := Machine.step_start hs
      obtain rfl : b.store = s := (Prod.mk.inj (Option.some.inj hbegin)).2
      exact ⟨hrow, hgrants⟩
  | act pid choice =>
      obtain ⟨cmd, next, r, s, hcall, hx, rfl, rfl⟩ := Machine.step_act hs
      have hallowed : orderMonitor.allowed (holdingOf tr pid) cmd := ((run_accepted hrun).2 pid _ hcall).1
      have hstep := (kept_run hlocks hsettled hrun).decided hallowed hrow hdecided
      rw [exec_eq hx] at hstep
      exact ⟨hstep.1, hstep.2.trans hgrants⟩

/-- A call that holds an order is in progress, and its next statement waits for nothing. -/
theorem holder_goes_on (h : machine.Run Ok (.start s₀) tr b) {pid orderId : ℕ} {found : Option CompanyFeatureOrder}
    (hheld : holdingOf tr pid = some (orderId, found)) :
    ∃ c next, b.pool[pid]? = some (.call c next) ∧ blocked c b.store = false := by
  obtain ⟨hidle, hin⟩ := run_accepted h
  have hlt : pid < b.pool.length := by
    by_contra hge
    rw [hidle pid (not_lt.mp hge)] at hheld
    cases hheld
  have hpool : b.pool[pid]? = some b.pool[pid] := List.getElem?_eq_getElem hlt
  have haccepts := hin pid _ hpool
  cases hp : b.pool[pid] with
  | ret a =>
      rw [hp] at haccepts
      exact absurd (hheld.symm.trans haccepts) (Option.some_ne_none _)
  | throw e =>
      rw [hp] at haccepts
      exact absurd (hheld.symm.trans haccepts) (Option.some_ne_none _)
  | call c next =>
      rw [hp] at haccepts hpool
      refine ⟨c, next, hpool, ?_⟩
      have hallowed := haccepts.1
      rw [hheld] at hallowed
      cases c with
      | lockOrder => exact absurd hallowed (Option.some_ne_none _)
      | rejectSubmitted => exact absurd hallowed (Option.some_ne_none _)
      | _ => rfl

/-- **No call waits for ever.**  In every run, whatever the interleaving: while a call is in progress some call can go
on, and when none is, no order is locked. -/
theorem never_stuck (hlocks : s₀.orderLocks = []) (hsettled : ∀ orderId, Settled s₀ orderId)
    (h : machine.Run Ok (.start s₀) tr b) :
    (¬ b.Quiet → ∃ pid e c, machine.step b (.act pid ()) = some (e, c)) ∧ (b.Quiet → b.store.orderLocks = []) := by
  have hkept := kept_run hlocks hsettled h
  have hgo : ∀ (pid : ℕ) (c : FeatureCmd) (next : FeatureResp c → Features Unit), b.pool[pid]? = some (.call c next) → blocked c b.store = false →
      ∃ pid e c, machine.step b (.act pid ()) = some (e, c) := by
    intro pid c next hpool hfree
    exact ⟨pid, .act pid c (featureExec c b.store).1,
      ⟨(featureExec c b.store).2, b.pool.set pid (next (featureExec c b.store).1)⟩,
      by simp [Machine.step, hpool, machine, hfree]⟩
  have howner : ∀ orderId ∈ b.store.orderLocks, ∃ (pid : ℕ) (c : FeatureCmd) (next : FeatureResp c → Features Unit),
      b.pool[pid]? = some (.call c next) ∧ blocked c b.store = false := by
    intro orderId hlocked
    obtain ⟨pid, found, hheld⟩ := hkept.exact.owned orderId hlocked
    obtain ⟨c, next, hpool, hfree⟩ := holder_goes_on h hheld
    exact ⟨pid, c, next, hpool, hfree⟩
  constructor
  · intro hbusy
    obtain ⟨p, hp, hunfinished⟩ : ∃ p ∈ b.pool, p.finished = false := by
      simpa [Conf.Quiet] using hbusy
    obtain ⟨pid, hpool⟩ := List.getElem?_of_mem hp
    cases p with
    | ret a => cases hunfinished
    | throw e => cases hunfinished
    | call c next =>
        by_cases hfree : blocked c b.store = false
        · exact hgo pid c next hpool hfree
        · -- it waits for an order, and whoever holds that goes on
          obtain ⟨orderId, hlocked⟩ : ∃ orderId, orderId ∈ b.store.orderLocks := by
            cases c with
            | lockOrder orderId => exact ⟨orderId, by simpa [blocked] using hfree⟩
            | rejectSubmitted orderId => exact ⟨orderId, by simpa [blocked] using hfree⟩
            | _ => exact absurd rfl hfree
          obtain ⟨other, c', next', hpool', hfree'⟩ := howner orderId hlocked
          exact hgo other c' next' hpool' hfree'
  · intro hquiet
    rw [List.eq_nil_iff_forall_not_mem]
    intro orderId hlocked
    obtain ⟨pid, c, next, hpool, _⟩ := howner orderId hlocked
    have hfinished := hquiet _ (List.mem_of_getElem? hpool)
    cases hfinished

end Runs

/-! ### Two admins at one order -/

/-- An order of two menus for a month. -/
def bought : CompanyFeatureOrder :=
  { id := 4, userId := 1, planId := none, feature := none, tier := some .bronze
    features := some ⟨[.trips, .drivers], by decide⟩, durationDays := 30, amount := 900000, currency := "IRT"
    status := .receiptSubmitted, receiptPath := "receipts/4.jpg", rejectionReason := none, reviewedBy := none
    reviewedAt := none }

def oneOrder : Store := { noGrants with orders := ⟨[bought], by decide⟩ }

theorem settled_oneOrder (orderId : ℕ) : Settled oneOrder orderId := by
  have hnone : grantsOf oneOrder orderId = [] := rfl
  by_cases hid : orderId = 4
  · subst hid
    exact (settled_some (o := bought) rfl).mpr hnone
  · refine (settled_none ?_).mpr hnone
    simp [oneOrder, Table.get, bought, Ne.symm hid]

/-- Both approve it; the second waits for the first, and is refused. -/
def approvedTwice : List machine.Label :=
  [.start (.approveOrder 4 8), .start (.approveOrder 4 9), .act 0 (), .act 1 (), .act 1 (), .act 1 (), .act 1 (),
    .act 1 (), .act 0 ()]

theorem orders_open_once_twice :
    ∃ y : List (Event FeatureResp) × Conf FeatureResp ServiceError Store,
      machine.Run (fun _ _ _ => True) (.start oneOrder) y.1 y.2 ∧ Settled y.2.store 4 ∧
      (grantsOf y.2.store 4).map CompanyFeatureGrant.feature = [.drivers, .trips] := by
  have hplay : (machine.play (fun _ _ _ => True) [] (.start oneOrder) approvedTwice).any (fun y =>
      decide ((grantsOf y.2.store 4).map CompanyFeatureGrant.feature = [.drivers, .trips])) = true := by decide
  simp only [Option.any_eq_true, decide_eq_true_eq] at hplay
  obtain ⟨y, hp, hgrants⟩ := hplay
  have hrun : machine.Run (fun _ _ _ => True) (.start oneOrder) y.1 y.2 := Machine.play_run .nil hp
  exact ⟨y, hrun, (orders_open_once rfl settled_oneOrder hrun .refl 4).1, hgrants⟩

/-- The second has asked for the order and waits. -/
def secondWaits : List machine.Label :=
  [.start (.approveOrder 4 8), .start (.approveOrder 4 9), .act 0 (), .act 1 (), .act 1 ()]

theorem never_stuck_waiting :
    ∃ y : List (Event FeatureResp) × Conf FeatureResp ServiceError Store,
      machine.Run (fun _ _ _ => True) (.start oneOrder) y.1 y.2 ∧ y.2.store.orderLocks = [4] ∧
      ∃ pid e c, machine.step y.2 (.act pid ()) = some (e, c) := by
  have hplay : (machine.play (fun _ _ _ => True) [] (.start oneOrder) secondWaits).any (fun y =>
      decide (y.2.store.orderLocks = [4]) && decide (¬ y.2.Quiet)) = true := by decide
  simp only [Option.any_eq_true, Bool.and_eq_true, decide_eq_true_eq] at hplay
  obtain ⟨y, hp, hlocked, hbusy⟩ := hplay
  have hrun : machine.Run (fun _ _ _ => True) (.start oneOrder) y.1 y.2 := Machine.play_run .nil hp
  exact ⟨y, hrun, hlocked, (never_stuck rfl settled_oneOrder hrun).1 hbusy⟩

end TransportBackend.FeatureOrders
