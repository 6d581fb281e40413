import TransportBackend.FeatureGrants

/-!
# Which menus a company has

The same three tables answer four questions: which menus are locked now, what the purchase page says of each menu,
whether one menu may be used, and which open menus end soon enough for a reminder.  Each is worked out on its own.

* `openGrants_eq_some` — the open menus of the service are those of the reminder's query, with the same ends;
* `Entitled` — what a company needs for a menu;
* `access_agrees` — **the four answers agree**, for every state of the tables;
* `bought_stays_open` — **a bought period opens its menu until it ends**, over every interleaving of the service's
  calls: nobody takes it away, and no gap comes between two periods, however calls overlap.
-/

namespace TransportBackend.FeatureAccess

open TransportBackend.AtomicProgram
open TransportBackend.CompanyFeatures
open TransportBackend.FeatureGrants
open TransportBackend.InterleavedRun
open TransportBackend.MonitoredProgram
open TransportBackend.NullLogic
open TransportBackend.PeriodChain
open TransportBackend.PlanExpiry (CompanyFeature CompanyTier CompanyFeatureGrant EndsAt of_iff ends mem_ends)
open TransportBackend.ReadWindows

/-! ### The open menus -/

theorem greatest_assoc (a b c : Option ℤ) : greatest (greatest a b) c = greatest a (greatest b c) := by
  cases a <;> cases b <;> cases c <;> simp [greatest, max_assoc]

theorem openStep_apply (opened : CompanyFeature → Option ℤ) (row : CompanyFeatureGrant) (feature : CompanyFeature) :
    openStep opened row feature =
      if row.feature = feature then greatest (opened feature) (some row.expireAt) else opened feature := by
  unfold openStep
  by_cases hfeature : row.feature = feature
  · subst hfeature
    rw [if_pos rfl]
    cases hopened : opened row.feature with
    | none => simp [greatest]
    | some current =>
        by_cases hlater : current < row.expireAt
        · simp [greatest, hlater, le_of_lt hlater]
        · simp [greatest, hlater, hopened, not_lt.mp hlater]
  · rw [if_neg hfeature]
    split
    · exact Function.update_of_ne (Ne.symm hfeature) _ _
    · rfl

/-- The first loop keeps the last end of each menu. -/
theorem foldl_openStep (rows : List CompanyFeatureGrant) (opened : CompanyFeature → Option ℤ)
    (feature : CompanyFeature) : rows.foldl openStep opened feature =
      greatest (opened feature) (maxOf ((rows.filter fun row => row.feature = feature).map
        CompanyFeatureGrant.expireAt)) := by
  induction rows generalizing opened with
  | nil => cases h : opened feature <;> simp [maxOf, greatest, h]
  | cons row rows ih =>
      rw [List.foldl_cons, ih, openStep_apply]
      by_cases hfeature : row.feature = feature
      · rw [if_pos hfeature, greatest_assoc, List.filter_cons_of_pos (by simpa using hfeature)]
        rfl
      · rw [if_neg hfeature, List.filter_cons_of_neg (by simpa using hfeature)]

/-- A period of the menu runs. -/
def Running (s : Store) (userId : ℕ) (feature : CompanyFeature) (now : ℤ) : Prop :=
  ∃ g ∈ s.grants, g.of userId feature = true ∧ g.runs now = true

instance (s : Store) (userId : ℕ) (feature : CompanyFeature) (now : ℤ) :
    Decidable (Running s userId feature now) :=
  inferInstanceAs (Decidable (∃ g ∈ s.grants, g.of userId feature = true ∧ g.runs now = true))

/-- The ends of the menu's periods. -/
def endsOf (s : Store) (userId : ℕ) (feature : CompanyFeature) : List ℤ :=
  (s.grants.filter fun g => g.of userId feature).map CompanyFeatureGrant.expireAt

theorem mem_endsOf {s : Store} {userId : ℕ} {feature : CompanyFeature} {e : ℤ} :
    e ∈ endsOf s userId feature ↔ ∃ g ∈ s.grants, g.of userId feature = true ∧ g.expireAt = e := by
  simp [endsOf, and_assoc]

theorem runs_iff {g : CompanyFeatureGrant} {now : ℤ} : g.runs now = true ↔ g.startAt ≤ now ∧ now < g.expireAt := by
  simp [CompanyFeatureGrant.runs]

theorem openGrants_eq (s : Store) (userId : ℕ) (now : ℤ) (feature : CompanyFeature) :
    openGrants s userId now feature = if Running s userId feature now then
      maxOf ((endsOf s userId feature).filter fun e => now < e) else none := by
  have hrunning : (s.grants.filter fun row => row.userId = userId && now < row.expireAt).any (fun row =>
      row.feature = feature && row.startAt ≤ now) = true ↔ Running s userId feature now := by
    simp only [Running, List.any_eq_true, List.mem_filter, Bool.and_eq_true, decide_eq_true_eq, of_iff, runs_iff]
    constructor
    · rintro ⟨g, ⟨hg, huser, hend⟩, hfeature, hstart⟩
      exact ⟨g, hg, ⟨huser, hfeature⟩, hstart, hend⟩
    · rintro ⟨g, hg, ⟨huser, hfeature⟩, hstart, hend⟩
      exact ⟨g, ⟨hg, huser, hend⟩, hfeature, hstart⟩
  have hends : ((s.grants.filter fun row => row.userId = userId && now < row.expireAt).filter fun row =>
      row.feature = feature).map CompanyFeatureGrant.expireAt = (endsOf s userId feature).filter fun e => now < e := by
    rw [endsOf, List.filter_map, List.filter_filter, List.filter_filter]
    congr 1
    refine List.filter_congr fun g _ => ?_
    simp [CompanyFeatureGrant.of, Bool.and_assoc, Bool.and_comm, Bool.and_left_comm]
  show (if _ then _ else none) = _
  rw [foldl_openStep, hends]
  by_cases hrun : Running s userId feature now
  · rw [if_pos hrun, if_pos (hrunning.mpr hrun)]
    rfl
  · rw [if_neg hrun, if_neg fun h => hrun (hrunning.mp h)]

section State

variable {s : Store} {userId : ℕ} {feature : CompanyFeature} {now : ℤ}

/-- A menu that runs has a period that has not ended. -/
theorem openGrants_isSome : (openGrants s userId now feature).isSome = true ↔ Running s userId feature now := by
  rw [openGrants_eq]
  by_cases hrun : Running s userId feature now
  · rw [if_pos hrun]
    refine iff_of_true ?_ hrun
    obtain ⟨g, hg, hof, hruns⟩ := hrun
    have hmem : g.expireAt ∈ (endsOf s userId feature).filter fun e => now < e :=
      List.mem_filter.mpr ⟨mem_endsOf.mpr ⟨g, hg, hof, rfl⟩, decide_eq_true (runs_iff.mp hruns).2⟩
    rw [Option.isSome_iff_ne_none]
    intro hnone
    rw [maxOf_eq_none.mp hnone] at hmem
    cases hmem
  · rw [if_neg hrun]
    exact iff_of_false Bool.false_ne_true hrun

/-- **The service's open menus are those of the reminder**, with the same ends. -/
theorem openGrants_eq_some {e : ℤ} :
    openGrants s userId now feature = some e ↔ (userId, feature, e) ∈ ends s.reminded now := by
  rw [mem_ends, openGrants_eq]
  constructor
  · intro h
    split at h
    · rename_i hrun
      obtain ⟨hmem, hmax⟩ := maxOf_eq_some.mp h
      obtain ⟨hmem, hlive⟩ := List.mem_filter.mp hmem
      refine ⟨hrun, mem_endsOf.mp hmem, fun g hg hof => ?_⟩
      by_cases hlater : now < g.expireAt
      · exact hmax _ (List.mem_filter.mpr ⟨mem_endsOf.mpr ⟨g, hg, hof, rfl⟩, decide_eq_true hlater⟩)
      · -- it has ended before the one that runs
        have hlt : now < e := of_decide_eq_true hlive
        omega
    · cases h
  · intro h
    have hlt : now < e := h.lt
    obtain ⟨hrun, hmem, hmax⟩ := h
    have hopen : Running s userId feature now := hrun
    rw [if_pos hopen, maxOf_eq_some]
    refine ⟨List.mem_filter.mpr ⟨mem_endsOf.mpr hmem, decide_eq_true hlt⟩, fun x hx => ?_⟩
    obtain ⟨g, hg, hof, rfl⟩ := mem_endsOf.mp (List.mem_of_mem_filter hx)
    exact hmax g hg hof

/-! ### The four answers -/

/-- What a company needs for a menu: to be a parent company; or, once it is checked, that the menu is free for it or
one of its periods runs. -/
def Entitled (s : Store) (menuPurchaseOn : Bool) (userId : ℕ) (feature : CompanyFeature) (now : ℤ) : Prop :=
  (standing s userId).isParent = true ∨ ((standing s userId).verified = true ∧
    (((standing s userId).invited = false ∧ feature ∉ paidFeatures s menuPurchaseOn) ∨ Running s userId feature now))

theorem mem_lockedFeatures {menuPurchaseOn : Bool} :
    feature ∈ lockedFeatures s menuPurchaseOn userId now ↔ ¬ Entitled s menuPurchaseOn userId feature now := by
  unfold lockedFeatures Entitled
  rw [← openGrants_isSome, ← Option.not_isNone]
  cases (standing s userId).isParent with
  | true => simp
  | false =>
      cases (standing s userId).verified with
      | false => simp [mem_allFeatures]
      | true =>
          cases (standing s userId).invited with
          | true => 
              have hne : allFeatures ≠ [] := by decide
              simp [hne, mem_allFeatures]
          | false =>
              by_cases hpaid : paidFeatures s menuPurchaseOn = []
              · simp [hpaid]
              · simp [hpaid]

theorem mem_paidFeatures (userId : ℕ) (now : ℤ) {menuPurchaseOn : Bool} :
    feature ∈ paidFeatures s menuPurchaseOn ↔ (featureState s menuPurchaseOn userId now feature).paid = true := by
  unfold paidFeatures featureState
  cases menuPurchaseOn with
  | false => simp [List.length_pos_iff_exists_mem]
  | true => 
      simp [List.length_pos_iff_exists_mem, or_comm]

/-- The company has a period of this end that it bought with the tier, and it has not ended. -/
def Bought (s : Store) (userId : ℕ) (now : ℤ) (tier : CompanyTier) (e : ℤ) : Prop :=
  ∃ g ∈ s.grants, g.userId = userId ∧ now < g.expireAt ∧ g.expireAt = e ∧
    (g.orderId.bind s.orders.get).bind CompanyFeatureOrder.tier = some tier

theorem longest_eq_none {xs : List (CompanyTier × ℤ)} : longest xs = none ↔ xs = [] := by
  cases xs with
  | nil => exact iff_of_true rfl rfl
  | cons x xs =>
      rw [longest]
      cases longest xs <;> simp

theorem longest_eq_some {xs : List (CompanyTier × ℤ)} {x : CompanyTier × ℤ} (h : longest xs = some x) :
    x ∈ xs ∧ ∀ y ∈ xs, y.2 ≤ x.2 := by
  induction xs generalizing x with
  | nil => cases h
  | cons z zs ih =>
      rw [longest] at h
      cases hrest : longest zs with
      | none =>
          rw [hrest] at h
          obtain rfl := Option.some.inj h
          rw [longest_eq_none.mp hrest]
          simp
      | some w =>
          obtain ⟨hw, hmax⟩ := ih hrest
          rw [hrest] at h
          obtain rfl := Option.some.inj h
          by_cases hlt : z.2 < w.2
          · rw [if_pos hlt]
            refine ⟨List.mem_cons_of_mem z hw, fun y hy => ?_⟩
            rcases List.mem_cons.mp hy with rfl | hy
            · exact le_of_lt hlt
            · exact hmax y hy
          · rw [if_neg hlt]
            refine ⟨List.mem_cons_self, fun y hy => ?_⟩
            rcases List.mem_cons.mp hy with rfl | hy
            · exact le_refl y.2
            · exact (hmax y hy).trans (not_lt.mp hlt)

theorem mem_tiers {tier : CompanyTier} {e : ℤ} :
    (tier, e) ∈ (s.grants.filter fun g => g.userId = userId && now < g.expireAt).filterMap (fun g =>
      ((g.orderId.bind s.orders.get).bind CompanyFeatureOrder.tier).map fun tier => (tier, g.expireAt)) ↔
    Bought s userId now tier e := by
  simp only [Bought, List.mem_filterMap, List.mem_filter, Bool.and_eq_true, decide_eq_true_eq, Option.map_eq_some_iff,
    Prod.mk.injEq]
  constructor
  · rintro ⟨g, ⟨hg, huser, hlive⟩, _, htier, rfl, rfl⟩
    exact ⟨g, hg, huser, hlive, rfl, htier⟩
  · rintro ⟨g, hg, huser, hlive, rfl, htier⟩
    exact ⟨g, ⟨hg, huser, hlive⟩, tier, htier, rfl, rfl⟩

/-- The tier a company is shown is one it still has, and none of them runs longer. -/
theorem currentTier_spec :
    (∀ tier e, currentTier s userId now = some (tier, e) →
      Bought s userId now tier e ∧ ∀ tier' e', Bought s userId now tier' e' → e' ≤ e) ∧
    (currentTier s userId now = none ↔ ∀ tier e, ¬ Bought s userId now tier e) := by
  constructor
  · intro tier e h
    obtain ⟨hmem, hmax⟩ := longest_eq_some h
    exact ⟨mem_tiers.mp hmem, fun tier' e' hbought => hmax (tier', e') (mem_tiers.mpr hbought)⟩
  · rw [currentTier, longest_eq_none, List.eq_nil_iff_forall_not_mem]
    exact ⟨fun h tier e hbought => h (tier, e) (mem_tiers.mpr hbought), fun h x hx => h x.1 x.2 (mem_tiers.mp hx)⟩

/-- **The four answers agree.**  The purchase page has one line for each menu; it says that the menu is locked just
when `lockedFeatures` has it and `hasFeature` refuses it, that is when the company is not entitled to it; paid, just
when it is among the paid menus; and the end it shows is the one the reminder works by.  Its tier is one the company
still has and that runs longest. -/
theorem access_agrees (s : Store) (menuPurchaseOn : Bool) (userId : ℕ) (now : ℤ) :
    (status s menuPurchaseOn userId now).features.map CompanyFeatureState.feature = allFeatures ∧
    (∀ line ∈ (status s menuPurchaseOn userId now).features,
      (line.locked = true ↔ line.feature ∈ lockedFeatures s menuPurchaseOn userId now) ∧
      (line.locked = true ↔ hasFeature s menuPurchaseOn userId line.feature now = false) ∧
      (line.locked = false ↔ Entitled s menuPurchaseOn userId line.feature now) ∧
      (line.paid = true ↔ line.feature ∈ paidFeatures s menuPurchaseOn) ∧
      ∀ e, line.expireAt = some e ↔ (userId, line.feature, e) ∈ ends s.reminded now) ∧
    (∀ tier e, (status s menuPurchaseOn userId now).currentTier = some (tier, e) →
      Bought s userId now tier e ∧ ∀ tier' e', Bought s userId now tier' e' → e' ≤ e) ∧
    ((status s menuPurchaseOn userId now).currentTier = none ↔ ∀ tier e, ¬ Bought s userId now tier e) := by
  refine ⟨rfl, fun line hline => ?_, currentTier_spec⟩
  obtain ⟨feature, _, rfl⟩ := List.mem_map.mp hline
  have hlocked : (featureState s menuPurchaseOn userId now feature).locked = true ↔
      ¬ Entitled s menuPurchaseOn userId feature now := by
    rw [Entitled, mem_paidFeatures userId now, ← openGrants_isSome, ← Option.not_isNone]
    show (!_ && (!_ || ((_ || (featureState s menuPurchaseOn userId now feature).paid) && _))) = true ↔ _
    cases (standing s userId).isParent <;> cases (standing s userId).verified <;>
      cases (standing s userId).invited <;> simp
  refine ⟨hlocked.trans mem_lockedFeatures.symm, ?_, ?_, (mem_paidFeatures userId now).symm, fun e => openGrants_eq_some⟩
  · rw [hlocked, ← mem_lockedFeatures]
    simp [hasFeature, featureState]
  · rw [← Bool.not_eq_true, hlocked, not_not]
    rfl

end State

/-! ### Over every run -/

/-- The windows of the calls, whoever writes meanwhile. -/
def steady : Windows FeatureResp Key ℤ := { windows with disturbs := fun _ _ => false }

/-- What a call that has read a menu knows whoever writes meanwhile. -/
def knows : Key → ℤ → Store → Prop
  | none, t, s => t ≤ s.clock
  | some menu, start, s => Reached s menu start

theorem knows_mono {k : Key} {v : ℤ} {s s' : Store} (h : knows k v s) (rows : List CompanyFeatureGrant)
    (hgrants : s'.grants = rows ++ s.grants) (hclock : s.clock ≤ s'.clock) : knows k v s' := by
  cases k with
  | none => exact le_trans h hclock
  | some menu => exact Reached.mono h rows hgrants hclock

section Runs

variable {Ok : List (Event FeatureResp) → Conf FeatureResp ServiceError Store → Event FeatureResp → Prop} {s₀ : Store}
  {tr : List (Event FeatureResp)} {b : Conf FeatureResp ServiceError Store}

theorem outside_grants {o : Outside} {s s' : Store} (h : machine.outside o s = some s') :
    s'.grants = s.grants ∧ s.clock ≤ s'.clock := by
  obtain rfl := Option.some.inj h
  cases o with
  | tick ms => exact ⟨rfl, Int.le_add_of_nonneg_right (Int.natCast_nonneg ms)⟩
  | saveUser user => exact ⟨rfl, le_refl s.clock⟩

/-- A step only adds periods, and time does not go back. -/
theorem step_grants {a c : Conf FeatureResp ServiceError Store} {l : machine.Label} {e : Event FeatureResp}
    (hs : machine.step a l = some (e, c)) :
    (∃ rows, c.store.grants = rows ++ a.store.grants) ∧ a.store.clock ≤ c.store.clock := by
  cases l with
  | outside o =>
      obtain ⟨s, ho, rfl, rfl⟩ := Machine.step_outside hs
      exact ⟨⟨[], (outside_grants ho).1⟩, (outside_grants ho).2⟩
  | start call =>
      obtain ⟨p, s, hbegin, rfl, rfl⟩ := Machine.step_start hs
      obtain rfl : a.store = s := (Prod.mk.inj (Option.some.inj hbegin)).2
      exact ⟨⟨[], rfl⟩, le_refl a.store.clock⟩
  | act pid choice =>
      obtain ⟨cmd, next, r, s, hcall, hx, rfl, rfl⟩ := Machine.step_act hs
      have hstore : s = (featureExec cmd a.store).2 := by rw [exec_eq hx]
      show (∃ rows, s.grants = rows ++ a.store.grants) ∧ a.store.clock ≤ s.clock
      rw [hstore, exec_clock, exec_grants]
      exact ⟨⟨rowsOf cmd, rfl⟩, le_refl a.store.clock⟩

theorem run_knows (h : machine.Run Ok (.start s₀) tr b) {pid : ℕ} {k : Key} {v : ℤ}
    (hk : windowsOf windows tr pid k = some v) : knows k v b.store := by
  have hfresh : ∀ tr pid k, stale steady tr pid k = false := fun tr pid _ => stale_of_undisturbed (fun _ => rfl) tr pid
  refine Run.stands (w := steady) knows ?_ ?_ ?_ ?_ ?_ h pid k v hk (hfresh tr pid k)
  · intro tr b pid choice c next r s' k v hrun hcall hx hopens hheld
    have hexec := exec_eq hx
    have hallowed := run_allowed hrun hcall
    change windows.opens c r k = some v at hopens
    cases c with
    | now =>
        unfold windows at hopens
        dsimp only at hopens
        split at hopens
        · rename_i hkey
          subst hkey
          obtain rfl := Option.some.inj hopens
          obtain ⟨rfl, rfl⟩ := Prod.mk.inj hexec
          exact le_refl b.store.clock
        · cases hopens
    | findLatestGrant own userId feature now =>
        unfold windows at hopens
        dsimp only at hopens
        split at hopens
        · rename_i hkey
          subst hkey
          obtain rfl := Option.some.inj hopens
          obtain ⟨rfl, rfl⟩ := Prod.mk.inj hexec
          exact (freeFrom_latest (hheld none now hallowed.1 (hfresh _ _ _)) hallowed.2).reached
        · cases hopens
    | _ => cases hopens
  · intro tr b pid choice c next r s' k v _ _ hx _ hk
    have hkept := knows_mono hk (rowsOf c) (exec_grants c b.store) (le_of_eq (exec_clock c b.store).symm)
    rwa [exec_eq hx] at hkept
  · exact fun _ _ h => absurd h Bool.false_ne_true
  · intro tr b o s' k v _ ho hk
    exact knows_mono hk [] (outside_grants ho).1 (outside_grants ho).2
  · intro call s p s' k v hbegin hk
    obtain rfl : s = s' := (Prod.mk.inj (Option.some.inj hbegin)).2
    exact hk

theorem periodsOf_append {s s' : Store} {rows : List CompanyFeatureGrant} (h : s'.grants = rows ++ s.grants)
    (userId : ℕ) (feature : CompanyFeature) : periodsOf s' userId feature =
      (rows.filter fun g => g.of userId feature).map (fun g => ⟨g.startAt, g.expireAt⟩) ++ periodsOf s userId feature := by
  rw [periodsOf, h, List.filter_append, List.map_append]
  rfl

/-- **However calls overlap, a new period starts where an earlier one ends, or when it was bought.** -/
theorem linked_run (h0 : ∀ userId feature, Linked s₀.clock (periodsOf s₀ userId feature))
    (h : machine.Run Ok (.start s₀) tr b) (userId : ℕ) (feature : CompanyFeature) :
    Linked b.store.clock (periodsOf b.store userId feature) := by
  refine Machine.Run.invariant (fun _ b => Linked b.store.clock (periodsOf b.store userId feature)) (h0 userId feature)
    ?_ h
  intro tr b l e c hrun hlinked hs _
  cases l with
  | outside o =>
      obtain ⟨s, ho, rfl, rfl⟩ := Machine.step_outside hs
      obtain ⟨hgrants, hclock⟩ := outside_grants ho
      show Linked s.clock (periodsOf s userId feature)
      rw [periodsOf, hgrants]
      exact hlinked.mono hclock
  | start call =>
      obtain ⟨p, s, hbegin, rfl, rfl⟩ := Machine.step_start hs
      obtain rfl : b.store = s := (Prod.mk.inj (Option.some.inj hbegin)).2
      exact hlinked
  | act pid choice =>
      obtain ⟨cmd, next, r, s, hcall, hx, rfl, rfl⟩ := Machine.step_act hs
      have hstore : s = (featureExec cmd b.store).2 := by rw [exec_eq hx]
      have hfits : Fits (windowsOf windows tr pid) (rowsOf cmd) := by
        have hallowed := run_allowed hrun hcall
        cases cmd with
        | findLatestGrant own userId feature now => exact fits_nil _
        | _ => exact hallowed
      show Linked s.clock (periodsOf s userId feature)
      rw [hstore, exec_clock, periodsOf_append (exec_grants cmd b.store)]
      refine hlinked.append fun p hp => ?_
      obtain ⟨g, hg, rfl⟩ := List.mem_map.mp hp
      obtain ⟨hg, hof⟩ := List.mem_filter.mp hg
      have hreached : Reached b.store (menuOf g) g.startAt := run_knows hrun (hfits.starts g hg)
      rw [of_menu.mp hof] at hreached
      refine Or.imp_right ?_ hreached
      rintro ⟨e, he, hsame, hend⟩
      exact ⟨_, mem_periodsOf.mpr ⟨e, he, of_menu.mpr hsame, rfl⟩, hend⟩

/-- From now on a menu is open until its last period ends. -/
theorem openGrants_of_linked {s : Store} {userId : ℕ} {feature : CompanyFeature} {t : ℤ}
    (h : Linked s.clock (periodsOf s userId feature)) (ht : s.clock ≤ t) :
    openGrants s userId t feature = (maxOf (endsOf s userId feature)).filter fun e => t < e := by
  cases hlast : maxOf (endsOf s userId feature) with
  | none =>
      have hnone : ¬ Running s userId feature t := by
        rintro ⟨g, hg, hof, _⟩
        have hmem := mem_endsOf.mpr ⟨g, hg, hof, rfl⟩
        rw [maxOf_eq_none.mp hlast] at hmem
        cases hmem
      rw [openGrants_eq, if_neg hnone]
      rfl
  | some e =>
      obtain ⟨hmem, hmax⟩ := maxOf_eq_some.mp hlast
      by_cases hlt : t < e
      · rw [Option.filter_some, if_pos (decide_eq_true hlt), openGrants_eq_some, mem_ends]
        obtain ⟨g, hg, hof, hend⟩ := mem_endsOf.mp hmem
        have hperiod : Period.mk g.startAt g.expireAt ∈ periodsOf s userId feature := mem_periodsOf.mpr ⟨g, hg, hof, rfl⟩
        obtain ⟨r, hr, hstart, hstop⟩ := h.running ht hperiod (hend ▸ hlt)
        obtain ⟨g', hg', hof', rfl⟩ := mem_periodsOf.mp hr
        exact ⟨⟨g', hg', hof', runs_iff.mpr ⟨hstart, hstop⟩⟩, ⟨g, hg, hof, hend⟩,
          fun g hg hof => hmax _ (mem_endsOf.mpr ⟨g, hg, hof, rfl⟩)⟩
      · have hnone : ¬ Running s userId feature t := by
          rintro ⟨g, hg, hof, hruns⟩
          have hle := hmax _ (mem_endsOf.mpr ⟨g, hg, hof, rfl⟩)
          exact hlt ((runs_iff.mp hruns).2.trans_le hle)
        rw [openGrants_eq, if_neg hnone, Option.filter_some, if_neg (by simpa using hlt)]

/-- **A bought period opens its menu until it ends.**  Over every interleaving, at any later point and any time from
then on: a menu is open exactly until the last of its periods ends, whatever it was that was added and by whom; and a
menu that a period was bought for is the company's before the end of that period, as long as the company is checked
or a parent company. -/
theorem bought_stays_open (h0 : ∀ userId feature, Linked s₀.clock (periodsOf s₀ userId feature))
    {x y : List (Event FeatureResp) × Conf FeatureResp ServiceError Store} (hx : machine.Run Ok (.start s₀) x.1 x.2)
    (hxy : machine.Later Ok x y) (userId : ℕ) (feature : CompanyFeature) {t : ℤ} (ht : y.2.store.clock ≤ t) :
    openGrants y.2.store userId t feature = (maxOf (endsOf y.2.store userId feature)).filter (fun e => t < e) ∧
    ∀ g ∈ x.2.store.grants, g.of userId feature = true → t < g.expireAt →
      (∃ e, openGrants y.2.store userId t feature = some e ∧ g.expireAt ≤ e) ∧
      ((standing y.2.store userId).isParent = true ∨ (standing y.2.store userId).verified = true →
        ∀ menuPurchaseOn, hasFeature y.2.store menuPurchaseOn userId feature t = true) := by
  have hopen := openGrants_of_linked (linked_run h0 (hx.later hxy) userId feature) ht
  refine ⟨hopen, fun g hg hof hlive => ?_⟩
  have hkept : ∃ rows, y.2.store.grants = rows ++ x.2.store.grants := by
    refine Machine.Run.relates (fun a c => ∃ rows, c.store.grants = rows ++ a.store.grants) (fun _ => ⟨[], rfl⟩) ?_ hx hxy
    rintro tr b l e c a _ hs _ ⟨rows, hrows⟩
    obtain ⟨⟨more, hmore⟩, _⟩ := step_grants hs
    exact ⟨more ++ rows, by rw [hmore, hrows, List.append_assoc]⟩
  obtain ⟨rows, hrows⟩ := hkept
  have hmem : g.expireAt ∈ endsOf y.2.store userId feature :=
    mem_endsOf.mpr ⟨g, hrows ▸ List.mem_append_right rows hg, hof, rfl⟩
  have hlast : ∃ e, openGrants y.2.store userId t feature = some e ∧ g.expireAt ≤ e := by
    cases hmax : maxOf (endsOf y.2.store userId feature) with
    | none =>
        rw [maxOf_eq_none.mp hmax] at hmem
        cases hmem
    | some e =>
        have hle := (maxOf_eq_some.mp hmax).2 _ hmem
        exact ⟨e, by rw [hopen, hmax, Option.filter_some, if_pos (decide_eq_true (hlive.trans_le hle))], hle⟩
  refine ⟨hlast, fun hstanding menuPurchaseOn => ?_⟩
  have hrunning : Running y.2.store userId feature t := by
    obtain ⟨e, he, _⟩ := hlast
    exact openGrants_isSome.mp (by rw [he]; rfl)
  have hentitled : Entitled y.2.store menuPurchaseOn userId feature t :=
    hstanding.imp_right fun hverified => ⟨hverified, .inr hrunning⟩
  have hfree : feature ∉ lockedFeatures y.2.store menuPurchaseOn userId t := fun h => mem_lockedFeatures.mp h hentitled
  simpa [hasFeature] using hfree

end Runs

/-! ### The same menu given twice at once -/

/-- A checked company, nothing on sale. -/
def oneCompany : Store :=
  { noGrants with users := ⟨[⟨1, false, some 7, .approved⟩], by decide⟩ }

/-- Two admins give the company the same menu: both read that it is free, the shorter period is written last. -/
def givenAtOnce : List machine.Label :=
  [.start (.grant 1 .trips 90), .start (.grant 1 .trips 30), .act 0 (), .act 1 (), .act 0 (), .act 1 (), .act 0 (),
    .act 1 ()]

theorem bought_stays_open_at_once : ∃ x : List (Event FeatureResp) × Conf FeatureResp ServiceError Store,
    machine.Run (fun _ _ _ => True) (.start oneCompany) x.1 x.2 ∧
    openGrants x.2.store 1 (2000 + 60 * PlanExpiry.DAY_MS) .trips = some (1000 + 90 * PlanExpiry.DAY_MS) ∧
    hasFeature x.2.store false 1 .trips (2000 + 60 * PlanExpiry.DAY_MS) = true := by
  have hplay : (machine.play (fun _ _ _ => True) [] (.start oneCompany) givenAtOnce).any (fun x =>
      x.2.store.clock ≤ 2000 + 60 * PlanExpiry.DAY_MS && (standing x.2.store 1).verified &&
      maxOf (endsOf x.2.store 1 .trips) = some (1000 + 90 * PlanExpiry.DAY_MS) &&
      x.2.store.grants.any fun g => g.of 1 .trips && g.expireAt = 1000 + 90 * PlanExpiry.DAY_MS) = true := by decide
  simp only [Option.any_eq_true, Bool.and_eq_true, decide_eq_true_eq, List.any_eq_true] at hplay
  obtain ⟨x, hp, ⟨⟨hclock, hverified⟩, hlast⟩, g, hg, hof, hend⟩ := hplay
  have hrun : machine.Run (fun _ _ _ => True) (.start oneCompany) x.1 x.2 := Machine.play_run .nil hp
  have hnone : ∀ userId feature, Linked oneCompany.clock (periodsOf oneCompany userId feature) := fun _ _ => trivial
  have hstays := bought_stays_open hnone hrun .refl 1 .trips hclock
  refine ⟨x, hrun, ?_, ?_⟩
  · rw [hstays.1, hlast]
    decide
  · exact (hstays.2 g hg hof (by rw [hend]; decide)).2 (.inr hverified) false

end TransportBackend.FeatureAccess
