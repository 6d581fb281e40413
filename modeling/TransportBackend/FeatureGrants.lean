import TransportBackend.CompanyFeatures
import TransportBackend.PeriodChain
import TransportBackend.ReadWindows

/-!
# Bought menus run back to back

A new period of a menu starts where the latest one that runs ends, which was read before it is written.  Between the
two the call holds a window on the menu: as long as nobody else has opened the same company's menu meanwhile, the
periods stay behind one another, however the calls overlap otherwise.

* `windows` — what the calls read and write by;
* `BackToBack` — every period starts where an earlier one ends, or when it was bought;
* `backToBack_commit`, `backToBack_grant` — what one write keeps;
* `grants_back_to_back` — **over every such run the periods of a menu neither overlap nor leave a gap**, and they
  last as long as all that was bought together.
-/

namespace TransportBackend.FeatureGrants

open TransportBackend.AtomicProgram
open TransportBackend.AtomicProgram.Prog
open TransportBackend.CompanyFeatures
open TransportBackend.InterleavedRun
open TransportBackend.KeyedTable
open TransportBackend.MonitoredProgram
open TransportBackend.NullLogic
open TransportBackend.PeriodChain
open TransportBackend.PlanExpiry (CompanyFeature CompanyFeatureGrant DAY_MS of_iff)
open TransportBackend.ReadWindows

/-! ### Windows -/

/-- The call's own time, or the periods of a company's menu. -/
abbrev Key : Type := Option (ℕ × CompanyFeature)

/-- The company and the menu a period opens. -/
def menuOf (g : CompanyFeatureGrant) : ℕ × CompanyFeature := (g.userId, g.feature)

theorem of_menu {g : CompanyFeatureGrant} {userId : ℕ} {feature : CompanyFeature} :
    g.of userId feature = true ↔ menuOf g = (userId, feature) := by
  rw [of_iff, menuOf, Prod.mk.injEq]

/-- Rows that start where the call read that their menus are free. -/
structure Fits (q : Held Key ℤ) (rows : List CompanyFeatureGrant) : Prop where
  starts : ∀ g ∈ rows, q (some (menuOf g)) = some g.startAt
  lasts : ∀ g ∈ rows, g.startAt ≤ g.expireAt
  menus : (rows.map menuOf).Nodup

/-- The periods a statement makes visible. -/
def rowsOf : FeatureCmd → List CompanyFeatureGrant
  | .commitApproval a => a.grants
  | .saveGrant g => [g]
  | _ => []

/-- A call reads its time and where a menu's last period ends, and writes by that. -/
def windows : Windows FeatureResp Key ℤ where
  opens
    | .now, t => fun k => if k = none then some t else none
    | .findLatestGrant _ userId feature now, latest => fun k =>
        if k = some (userId, feature) then some (latest.getD now) else none
    | _, _ => fun _ => none
  closes
    | .commitApproval _, _ => true
    | .rollback _, _ => true
    | .saveGrant g, k => decide (k = some (menuOf g))
    | _, _ => false
  disturbs c k := (rowsOf c).any fun g => k = some (menuOf g)
  allowed q
    | .findLatestGrant own userId feature now =>
        q none = some now ∧ ∀ g ∈ own, g.of userId feature = false
    | c => Fits q (rowsOf c)
  answers _ _ _ := True

/-- The calls that only read, or write other tables. -/
def Harmless : FeatureCmd → Prop
  | .findLatestGrant _ _ _ _ => False
  | .commitApproval _ => False
  | .saveGrant _ => False
  | _ => True

/-! ### The calls keep to their windows -/

theorem fits_nil (q : Held Key ℤ) : Fits q [] :=
  ⟨fun _ hg => absurd hg List.not_mem_nil, fun _ hg => absurd hg List.not_mem_nil, List.nodup_nil⟩

theorem allowed_harmless {c : FeatureCmd} (h : Harmless c) (q : Held Key ℤ) : windows.allowed q c := by
  cases c <;> first | exact fits_nil q | cases h

theorem accepts_harmless {α : Type} {p : Features α} (h : p.Within Harmless (fun _ _ => True) (fun _ => True))
    (q : Held Key ℤ) : Accepts windows.monitor p q (fun _ _ => True) := by
  induction p generalizing q with
  | ret a => exact trivial
  | throw e => exact trivial
  | call c k ih => exact ⟨allowed_harmless h.1 q, fun r _ => ih r (h.2 r trivial) _⟩

theorem next_latest (q : Held Key ℤ) (own : List CompanyFeatureGrant) (userId : ℕ) (feature : CompanyFeature)
    (now : ℤ) (latest : Option ℤ) (k : Key) :
    windows.next q (.findLatestGrant own userId feature now) latest k =
      if k = some (userId, feature) then some (latest.getD now) else q k := by
  unfold Windows.next windows
  dsimp only
  split <;> rfl

/-- The new row fits behind what was read. -/
theorem Fits.cons {q : Held Key ℤ} {own : List CompanyFeatureGrant} (h : Fits q own) {userId : ℕ}
    {feature : CompanyFeature} (hown : ∀ g ∈ own, g.of userId feature = false) (days : ℕ) (now : ℤ)
    (latest : Option ℤ) (orderId : Option ℕ) :
    Fits (windows.next q (.findLatestGrant own userId feature now) latest)
      (newGrant userId feature days now latest orderId :: own) := by
  have hother : ∀ g ∈ own, some (menuOf g) ≠ some (userId, feature) := by
    intro g hg heq
    have hof := of_menu.mpr (Option.some.inj heq)
    rw [hown g hg] at hof
    cases hof
  refine ⟨fun g hg => ?_, fun g hg => ?_, ?_⟩
  · rw [next_latest]
    rcases List.mem_cons.mp hg with rfl | hg
    · exact if_pos rfl
    · rw [if_neg (hother g hg)]
      exact h.starts g hg
  · rcases List.mem_cons.mp hg with rfl | hg
    · show latest.getD now ≤ latest.getD now + days * DAY_MS
      have hday : 0 ≤ (days : ℤ) * DAY_MS := mul_nonneg (Int.natCast_nonneg days) (by decide)
      omega
    · exact h.lasts g hg
  · rw [List.map_cons, List.nodup_cons]
    refine ⟨fun hmem => ?_, h.menus⟩
    obtain ⟨g, hg, heq⟩ := List.mem_map.mp hmem
    exact hother g hg (congrArg some heq)

/-- The loop of an approval: each menu is read once, and its row fits. -/
theorem accepts_addGrants (order : CompanyFeatureOrder) (now : ℤ) (features : List CompanyFeature)
    (own : List CompanyFeatureGrant) (q : Held Key ℤ) (hnow : q none = some now) (hfits : Fits q own)
    (hnodup : features.Nodup) (hown : ∀ g ∈ own, ∀ feature ∈ features, g.of order.userId feature = false) :
    Accepts windows.monitor (addGrants order now features own) q
      (outcome (fun grants q' => Fits q' grants) (fun _ _ => True)) := by
  induction features generalizing own q with
  | nil => exact hfits
  | cons feature features ih =>
      obtain ⟨hnew, hnodup⟩ := List.nodup_cons.mp hnodup
      have hfree : ∀ g ∈ own, g.of order.userId feature = false := fun g hg => hown g hg feature List.mem_cons_self
      refine ⟨⟨hnow, hfree⟩, fun latest _ => ?_⟩
      refine ih _ _ ?_ (hfits.cons hfree _ now latest _) hnodup fun g hg other hother => ?_
      · show windows.next q _ latest none = some now
        rw [next_latest, if_neg (by simp)]
        exact hnow
      · rcases List.mem_cons.mp hg with rfl | hg
        · rw [Bool.eq_false_iff]
          intro hof
          rw [of_menu] at hof
          have hsame : feature = other := (Prod.mk.inj hof).2
          exact hnew (hsame ▸ hother)
        · exact hown g hg other (List.mem_cons_of_mem feature hother)

theorem nodup_menus (o : CompanyFeatureOrder) : o.menus.Nodup := by
  unfold CompanyFeatureOrder.menus
  split
  · cases o.features with
    | none => exact List.nodup_nil
    | some menus => exact menus.property
  · cases o.feature with
    | none => exact List.nodup_nil
    | some feature => exact List.nodup_singleton feature

theorem accepts_approveIn (orderId adminUserId : ℕ) (now : ℤ) (q : Held Key ℤ) (hnow : q none = some now) :
    Accepts windows.monitor (approveIn orderId adminUserId now) q (fun _ _ => True) := by
  unfold approveIn
  rw [accepts_bind, issue, accepts_perform]
  refine ⟨fits_nil q, fun found _ => ?_⟩
  rw [outcome_ok, accepts_bind, accepts_orThrow]
  refine ⟨fun _ => trivial, fun order _ => ?_⟩
  rw [outcome_ok, accepts_bind, accepts_refuseIf]
  refine ⟨fun _ => trivial, fun _ => ?_⟩
  rw [outcome_ok, accepts_bind]
  refine accepts_mono (accepts_addGrants order now order.menus [] q hnow (fits_nil q) (nodup_menus order)
    fun _ hg => absurd hg List.not_mem_nil) fun out q' hout => ?_
  cases out with
  | error e => exact trivial
  | ok grants =>
      rw [outcome_ok, accepts_bind, accepts_refuseIf]
      exact ⟨fun _ => trivial, fun _ => ⟨hout, fun _ _ => trivial⟩⟩

theorem next_now (t : ℤ) : windows.next Held.none .now t none = some t := rfl

/-- **Every call keeps to its windows.** -/
theorem accepts_call (call : Call) : Accepts windows.monitor call.prog Held.none (fun _ _ => True) := by
  cases call with
  | approveOrder orderId adminUserId =>
      show Accepts windows.monitor (CompanyFeatures.approveOrder orderId adminUserId) _ _
      rw [CompanyFeatures.approveOrder, accepts_bind, issue, accepts_perform]
      refine ⟨fits_nil _, fun now _ => ?_⟩
      rw [outcome_ok, accepts_bind, accepts_attempt]
      refine accepts_mono (accepts_approveIn orderId adminUserId now _ (next_now now)) fun out q' _ => ?_
      cases out with
      | ok _ => exact trivial
      | error e => exact ⟨fits_nil q', fun _ _ => trivial⟩
  | grant userId feature days =>
      show Accepts windows.monitor (CompanyFeatures.grant userId feature days) _ _
      rw [CompanyFeatures.grant, accepts_bind, issue, accepts_perform]
      refine ⟨fits_nil _, fun now _ => ?_⟩
      rw [outcome_ok, accepts_bind, issue, accepts_perform]
      refine ⟨⟨next_now now, fun _ hg => absurd hg List.not_mem_nil⟩, fun latest _ => ?_⟩
      rw [outcome_ok, issue, accepts_perform]
      exact ⟨(fits_nil _).cons (fun _ hg => absurd hg List.not_mem_nil) days now latest none, fun _ _ => trivial⟩
  | rejectOrder orderId adminUserId reason =>
      exact accepts_harmless (by simp [Call.prog, CompanyFeatures.rejectOrder, issue, Harmless]) _
  | submitOrder on userId planId receiptPath =>
      exact accepts_harmless (by simp [Call.prog, CompanyFeatures.submitOrder, CompanyFeatures.isParent, issue, Harmless]) _
  | submitTierOrder userId tier months receiptPath =>
      exact accepts_harmless (by simp [Call.prog, CompanyFeatures.submitTierOrder, CompanyFeatures.isParent, issue, Harmless]) _
  | createPlan plan => exact accepts_harmless (by simp [Call.prog, CompanyFeatures.createPlan, issue, Harmless]) _
  | deactivatePlan id =>
      exact accepts_harmless (by simp [Call.prog, CompanyFeatures.deactivatePlan, issue, Harmless]) _
  | updateTier tier input =>
      exact accepts_harmless (by simp [Call.prog, CompanyFeatures.updateTier, issue, Harmless]) _

/-! ### Periods that follow one another -/

/-- The periods (latest first): each starts where an earlier one of its menu ends, or has started by now, and none of
its menu ends later. -/
def BackToBack (clock : ℤ) : List CompanyFeatureGrant → Prop
  | [] => True
  | g :: earlier => BackToBack clock earlier ∧ g.startAt ≤ g.expireAt ∧
      (∀ e ∈ earlier, menuOf e = menuOf g → e.expireAt ≤ g.startAt) ∧
      (g.startAt ≤ clock ∨ ∃ e ∈ earlier, menuOf e = menuOf g ∧ e.expireAt = g.startAt)

theorem BackToBack.mono {clock clock' : ℤ} (hle : clock ≤ clock') {gs : List CompanyFeatureGrant}
    (h : BackToBack clock gs) : BackToBack clock' gs := by
  induction gs with
  | nil => exact trivial
  | cons g gs ih =>
      obtain ⟨hearlier, hlasts, hlatest, hstart⟩ := h
      exact ⟨ih hearlier, hlasts, hlatest, hstart.imp_left fun h => h.trans hle⟩

/-- The time has come, or a period of the menu ends then. -/
def Reached (s : Store) (menu : ℕ × CompanyFeature) (start : ℤ) : Prop :=
  start ≤ s.clock ∨ ∃ e ∈ s.grants, menuOf e = menu ∧ e.expireAt = start

/-- From this time on the menu is free: no period ends later, and one ends then unless the time has come. -/
structure FreeFrom (s : Store) (menu : ℕ × CompanyFeature) (start : ℤ) : Prop where
  ends : ∀ e ∈ s.grants, menuOf e = menu → e.expireAt ≤ start
  reached : Reached s menu start

/-- **Rows of different menus that start where those are free.** -/
theorem backToBack_append {s : Store} {rows : List CompanyFeatureGrant} (h : BackToBack s.clock s.grants)
    (hfree : ∀ g ∈ rows, FreeFrom s (menuOf g) g.startAt) (hlasts : ∀ g ∈ rows, g.startAt ≤ g.expireAt)
    (hmenus : (rows.map menuOf).Nodup) : BackToBack s.clock (rows ++ s.grants) := by
  induction rows with
  | nil => exact h
  | cons g rows ih =>
      rw [List.map_cons, List.nodup_cons] at hmenus
      obtain ⟨hends, hreached⟩ := hfree g List.mem_cons_self
      refine ⟨ih (fun e he => hfree e (List.mem_cons_of_mem g he)) (fun e he => hlasts e (List.mem_cons_of_mem g he))
        hmenus.2, hlasts g List.mem_cons_self, fun e he hsame => ?_, ?_⟩
      · rcases List.mem_append.mp he with he | he
        · exact absurd (List.mem_map.mpr ⟨e, he, hsame⟩) hmenus.1
        · exact hends e he hsame
      · refine hreached.imp_right ?_
        rintro ⟨e, he, hsame, hend⟩
        exact ⟨e, List.mem_append_right rows he, hsame, hend⟩

/-! ### What was read -/

/-- What a call that holds a window knows. -/
def holds : Key → ℤ → Store → Prop
  | none, t, s => t ≤ s.clock
  | some menu, start, s => FreeFrom s menu start

/-- The latest end that was read, or the call's time. -/
theorem freeFrom_latest {s : Store} {own : List CompanyFeatureGrant} {userId : ℕ} {feature : CompanyFeature} {now : ℤ}
    (hnow : now ≤ s.clock) (hown : ∀ g ∈ own, g.of userId feature = false) :
    FreeFrom s (userId, feature) ((s.latestGrant own userId feature now).getD now) := by
  have hrows : (own ++ s.grants).filter (fun g => g.of userId feature && now < g.expireAt) =
      s.grants.filter fun g => g.of userId feature && now < g.expireAt := by
    rw [List.filter_append, List.filter_eq_nil_iff.mpr, List.nil_append]
    intro g hg
    rw [hown g hg]
    exact Bool.false_ne_true
  unfold Store.latestGrant
  rw [hrows]
  cases hlatest : maxOf ((s.grants.filter fun g => g.of userId feature && now < g.expireAt).map
      CompanyFeatureGrant.expireAt) with
  | none =>
      refine ⟨fun e he hsame => ?_, .inl hnow⟩
      by_contra hlive
      have hmem : e.expireAt ∈ (s.grants.filter fun g => g.of userId feature && now < g.expireAt).map
          CompanyFeatureGrant.expireAt := by
        refine List.mem_map.mpr ⟨e, List.mem_filter.mpr ⟨he, ?_⟩, rfl⟩
        rw [of_menu.mpr hsame, Bool.true_and]
        exact decide_eq_true (not_le.mp hlive)
      rw [maxOf_eq_none.mp hlatest] at hmem
      cases hmem
  | some latest =>
      obtain ⟨hmem, hmax⟩ := maxOf_eq_some.mp hlatest
      obtain ⟨g, hg, rfl⟩ := List.mem_map.mp hmem
      obtain ⟨hg, hlive⟩ := List.mem_filter.mp hg
      rw [Bool.and_eq_true, decide_eq_true_eq] at hlive
      refine ⟨fun e he hsame => ?_, .inr ⟨g, hg, of_menu.mp hlive.1, rfl⟩⟩
      by_cases hlater : now < e.expireAt
      · refine hmax _ (List.mem_map.mpr ⟨e, List.mem_filter.mpr ⟨he, ?_⟩, rfl⟩)
        rw [of_menu.mpr hsame, Bool.true_and]
        exact decide_eq_true hlater
      · show e.expireAt ≤ g.expireAt
        omega

theorem Reached.mono {s s' : Store} {menu : ℕ × CompanyFeature} {start : ℤ} (h : Reached s menu start)
    (rows : List CompanyFeatureGrant) (hgrants : s'.grants = rows ++ s.grants) (hclock : s.clock ≤ s'.clock) :
    Reached s' menu start := by
  refine Or.imp (fun hle => le_trans hle hclock) ?_ h
  rintro ⟨e, he, hsame, hend⟩
  exact ⟨e, hgrants ▸ List.mem_append_right rows he, hsame, hend⟩

theorem FreeFrom.mono {s s' : Store} {menu : ℕ × CompanyFeature} {start : ℤ} (h : FreeFrom s menu start)
    (rows : List CompanyFeatureGrant) (hgrants : s'.grants = rows ++ s.grants) (hother : ∀ g ∈ rows, menuOf g ≠ menu)
    (hclock : s.clock ≤ s'.clock) : FreeFrom s' menu start := by
  constructor
  · intro e he hsame
    rw [hgrants] at he
    rcases List.mem_append.mp he with he | he
    · exact absurd hsame (hother e he)
    · exact h.ends e he hsame
  · exact h.reached.mono rows hgrants hclock

/-! ### What a statement does to the periods -/

theorem exec_eq {choice : machine.Choice} {c : FeatureCmd} {s s' : Store} {r : FeatureResp c}
    (h : machine.exec choice c s = some (r, s')) : featureExec c s = (r, s') := by
  unfold machine at h
  dsimp only at h
  split at h
  · cases h
  · exact Option.some.inj h

/-- A statement only adds its rows, and takes no time. -/
theorem exec_frame (c : FeatureCmd) (s : Store) :
    (featureExec c s).2.grants = rowsOf c ++ s.grants ∧ (featureExec c s).2.clock = s.clock := by
  cases c with
  | rejectSubmitted id adminUserId reason now =>
      show (s.rejectSubmitted id adminUserId reason now).2.grants = s.grants ∧ _ = s.clock
      rcases s.rejectSubmitted_cases id adminUserId reason now with hs | ⟨o, o', _, _, _, _, hs⟩
      · rw [featureExec, hs]
        exact ⟨rfl, rfl⟩
      · rw [featureExec, hs]
        exact ⟨rfl, rfl⟩
  | deactivate planId =>
      obtain ⟨plans, hs⟩ := s.deactivate_plans planId
      show (s.deactivate planId).2.grants = s.grants ∧ (s.deactivate planId).2.clock = s.clock
      rw [hs]
      exact ⟨rfl, rfl⟩
  | updateTier plan =>
      obtain ⟨tiers, hs⟩ := s.updateTier_tiers plan
      show (s.updateTier plan).2.grants = s.grants ∧ (s.updateTier plan).2.clock = s.clock
      rw [hs]
      exact ⟨rfl, rfl⟩
  | _ => exact ⟨rfl, rfl⟩

theorem exec_grants (c : FeatureCmd) (s : Store) : (featureExec c s).2.grants = rowsOf c ++ s.grants := (exec_frame c s).1

theorem exec_clock (c : FeatureCmd) (s : Store) : (featureExec c s).2.clock = s.clock := (exec_frame c s).2

/-- What does not disturb a menu leaves it free from where it is. -/
theorem holds_keep {c : FeatureCmd} {s : Store} {k : Key} {v : ℤ} (hcalm : windows.disturbs c k = false)
    (h : holds k v s) : holds k v (featureExec c s).2 := by
  cases k with
  | none =>
      show v ≤ (featureExec c s).2.clock
      rw [exec_clock]
      exact h
  | some menu =>
      refine FreeFrom.mono h (rowsOf c) (exec_grants c s) (fun g hg hsame => ?_) (le_of_eq (exec_clock c s).symm)
      have hdisturbs : windows.disturbs c (some menu) = true :=
        List.any_eq_true.mpr ⟨g, hg, decide_eq_true (congrArg some hsame.symm)⟩
      rw [hcalm] at hdisturbs
      cases hdisturbs

/-! ### Runs -/

section Runs

variable {s₀ : Store} {tr : List (Event FeatureResp)} {b : Conf FeatureResp ServiceError Store}

/-- No call opens a company's menu that somebody else has opened since it read where the menu's periods end. -/
abbrev Calm : List (Event FeatureResp) → Conf FeatureResp ServiceError Store → Event FeatureResp → Prop :=
  Fresh windows

theorem run_allowed {Ok : List (Event FeatureResp) → Conf FeatureResp ServiceError Store → Event FeatureResp → Prop}
    (h : machine.Run Ok (.start s₀) tr b) {pid : ℕ} {c : FeatureCmd}
    {next : FeatureResp c → Features Unit} (hpool : b.pool[pid]? = some (.call c next)) :
    windows.allowed (windowsOf windows tr pid) c := by
  have hallows : windows.monitor.allowed (stateOf windows.monitor Held.none tr pid) c := by
    refine Run.allows (F := fun _ => True) ?_ ?_ h hpool
    · intro call s p s' hbegin
      obtain rfl : call.prog = p := (Prod.mk.inj (Option.some.inj hbegin)).1
      exact accepts_call call
    · exact fun _ _ _ _ _ _ _ _ _ _ => trivial
  exact hallows

/-- Nobody changes a call's own time. -/
theorem time_fresh (tr : List (Event FeatureResp)) (pid : ℕ) : stale windows tr pid none = false :=
  stale_of_undisturbed (fun c => by cases c <;> simp [windows, rowsOf]) tr pid

/-- **What a call has read of a menu still stands**, unless somebody else has opened it since. -/
theorem run_stands {Ok : List (Event FeatureResp) → Conf FeatureResp ServiceError Store → Event FeatureResp → Prop}
    (h : machine.Run Ok (.start s₀) tr b) {pid : ℕ} {k : Key} {v : ℤ} (hk : windowsOf windows tr pid k = some v)
    (hfresh : stale windows tr pid k = false) : holds k v b.store := by
  refine Run.stands holds ?_ ?_ ?_ ?_ ?_ h pid k v hk hfresh
  · intro tr b pid choice c next r s' k v hrun hcall hx hopens hheld
    have hexec := exec_eq hx
    have hallowed := run_allowed hrun hcall
    cases c with
    | now =>
        unfold windows at hopens
        dsimp only at hopens
        split at hopens
        · rename_i hkey
          subst hkey
          obtain rfl := Option.some.inj hopens
          obtain ⟨rfl, rfl⟩ := Prod.mk.inj hexec
          exact le_refl b.store.clock
        · cases hopens
    | findLatestGrant own userId feature now =>
        unfold windows at hopens
        dsimp only at hopens
        split at hopens
        · rename_i hkey
          subst hkey
          obtain rfl := Option.some.inj hopens
          obtain ⟨rfl, rfl⟩ := Prod.mk.inj hexec
          exact freeFrom_latest (hheld none now hallowed.1 (time_fresh tr pid)) hallowed.2
        · cases hopens
    | _ => cases hopens
  · intro tr b pid choice c next r s' k v _ _ hx hcalm hk
    have hkept := holds_keep hcalm hk
    rwa [exec_eq hx] at hkept
  · intro c k hdisturbs
    cases c with
    | commitApproval a => rfl
    | saveGrant g =>
        obtain ⟨e, he, hkey⟩ := List.any_eq_true.mp hdisturbs
        rw [List.mem_singleton.mp he] at hkey
        exact hkey
    | _ => cases hdisturbs
  · intro tr b o s' k v _ ho hk
    obtain rfl := Option.some.inj ho
    cases o with
    | tick ms =>
        have hclock : b.store.clock ≤ b.store.clock + ms := Int.le_add_of_nonneg_right (Int.natCast_nonneg ms)
        cases k with
        | none => exact le_trans hk hclock
        | some menu => exact FreeFrom.mono hk [] rfl (fun _ hg => absurd hg List.not_mem_nil) hclock
    | saveUser user =>
        cases k with
        | none => exact hk
        | some menu => exact FreeFrom.mono hk [] rfl (fun _ hg => absurd hg List.not_mem_nil) le_rfl
  · intro call s p s' k v hbegin hk
    obtain rfl : s = s' := (Prod.mk.inj (Option.some.inj hbegin)).2
    exact hk

/-- **Every period starts where an earlier one ends, or when it was bought.** -/
theorem backToBack_run (h0 : BackToBack s₀.clock s₀.grants) (h : machine.Run Calm (.start s₀) tr b) :
    BackToBack b.store.clock b.store.grants := by
  refine Machine.Run.invariant (fun _ b => BackToBack b.store.clock b.store.grants) h0 ?_ h
  intro tr b l e c hrun hback hs hok
  cases l with
  | outside o =>
      obtain ⟨s, ho, rfl, rfl⟩ := Machine.step_outside hs
      obtain rfl := Option.some.inj ho
      cases o with
      | tick ms => exact hback.mono (Int.le_add_of_nonneg_right (Int.natCast_nonneg ms))
      | saveUser user => exact hback
  | start call =>
      obtain ⟨p, s, hbegin, rfl, rfl⟩ := Machine.step_start hs
      obtain rfl : b.store = s := (Prod.mk.inj (Option.some.inj hbegin)).2
      exact hback
  | act pid choice =>
      obtain ⟨cmd, next, r, s, hcall, hx, rfl, rfl⟩ := Machine.step_act hs
      have hstore : s = (featureExec cmd b.store).2 := by rw [exec_eq hx]
      have hfits : Fits (windowsOf windows tr pid) (rowsOf cmd) := by
        have hallowed := run_allowed hrun hcall
        cases cmd with
        | findLatestGrant own userId feature now => exact fits_nil _
        | _ => exact hallowed
      show BackToBack s.clock s.grants
      rw [hstore, exec_clock, exec_grants]
      refine backToBack_append hback (fun g hg => ?_) hfits.lasts hfits.menus
      have hdisturbs : windows.disturbs cmd (some (menuOf g)) = true :=
        List.any_eq_true.mpr ⟨g, hg, decide_eq_true rfl⟩
      have hheld := hfits.starts g hg
      exact run_stands hrun hheld (fresh_of_held hheld (hok (some (menuOf g)) hdisturbs))

/-- The periods of a company's menu, the latest first. -/
def periodsOf (s : Store) (userId : ℕ) (feature : CompanyFeature) : List (Period ℤ) :=
  (s.grants.filter fun g => g.of userId feature).map fun g => ⟨g.startAt, g.expireAt⟩

theorem mem_periodsOf {s : Store} {userId : ℕ} {feature : CompanyFeature} {p : Period ℤ} :
    p ∈ periodsOf s userId feature ↔
      ∃ g ∈ s.grants, g.of userId feature = true ∧ Period.mk g.startAt g.expireAt = p := by
  simp [periodsOf, and_assoc]

/-- The periods of one menu are a chain. -/
theorem chained_periods {clock : ℤ} {gs : List CompanyFeatureGrant} (h : BackToBack clock gs) (userId : ℕ)
    (feature : CompanyFeature) : Chained clock
      ((gs.filter fun g => g.of userId feature).map fun g => (⟨g.startAt, g.expireAt⟩ : Period ℤ)) := by
  induction gs with
  | nil => exact trivial
  | cons g gs ih =>
      obtain ⟨hearlier, hlasts, hlatest, hstart⟩ := h
      by_cases hof : g.of userId feature = true
      · have hmenu := of_menu.mp hof
        have hfilter : (g :: gs).filter (fun g => g.of userId feature) = g :: gs.filter fun g => g.of userId feature :=
          List.filter_cons_of_pos (p := fun g : CompanyFeatureGrant => g.of userId feature) hof
        rw [hfilter, List.map_cons]
        refine ⟨ih hearlier, hlasts, fun q hq => ?_, hstart.imp_right ?_⟩
        · obtain ⟨e, he, rfl⟩ := List.mem_map.mp hq
          obtain ⟨he, hofe⟩ := List.mem_filter.mp he
          exact hlatest e he ((of_menu.mp hofe).trans hmenu.symm)
        · rintro ⟨e, he, hsame, hend⟩
          exact ⟨_, List.mem_map.mpr ⟨e, List.mem_filter.mpr ⟨he, of_menu.mpr (hsame.trans hmenu)⟩, rfl⟩, hend⟩
      · have hfilter : (g :: gs).filter (fun g => g.of userId feature) = gs.filter fun g => g.of userId feature :=
          List.filter_cons_of_neg (p := fun g : CompanyFeatureGrant => g.of userId feature) hof
        rw [hfilter]
        exact ih hearlier

/-- Whether a step is calm, over the rows it makes visible. -/
def isCalm (tr : List (Event FeatureResp)) : Event FeatureResp → Bool
  | .act pid c _ => (rowsOf c).all fun g => !outdated windows tr pid (some (menuOf g))
  | _ => true

theorem isCalm_iff {a : Conf FeatureResp ServiceError Store} {e : Event FeatureResp} :
    isCalm tr e = true ↔ Calm tr a e := by
  cases e with
  | outside => exact iff_of_true rfl trivial
  | start pid => exact iff_of_true rfl trivial
  | act pid c r =>
      show ((rowsOf c).all _ = true) ↔ ∀ k, (rowsOf c).any _ = true → _
      simp only [List.all_eq_true, List.any_eq_true, decide_eq_true_eq, Bool.not_eq_true']
      constructor
      · rintro h k ⟨g, hg, rfl⟩
        exact h g hg
      · exact fun h g hg => h _ ⟨g, hg, rfl⟩

instance (tr : List (Event FeatureResp)) (a : Conf FeatureResp ServiceError Store) (e : Event FeatureResp) :
    Decidable (Calm tr a e) :=
  decidable_of_iff _ isCalm_iff

end Runs

/-! ### Two companies at once -/

def noGrants : Store :=
  { clock := 1000, users := Table.empty, plans := Table.empty, tiers := Table.empty, orders := Table.empty,
    grants := [], orderLocks := [] }

/-- Two companies are given a menu at the same time, and the first one of them once more an hour later. -/
def givenTwice : List machine.Label :=
  [.start (.grant 1 .trips 30), .start (.grant 2 .trips 30), .act 0 (), .act 1 (), .act 0 (), .act 1 (), .act 1 (),
    .act 0 (), .outside (.tick 3600000), .start (.grant 1 .trips 90), .act 2 (), .act 2 (), .act 2 ()]

end TransportBackend.FeatureGrants
