import Mathlib.Data.List.Sort
import TransportBackend.KeyedTable
import TransportBackend.NullLogic

/-!
# The reminder before a company's menus close

A sweep runs every hour at most.  It finds the bought menus that close within the reminder days, puts a
company's menus that close within a day of its first one into one notice, and sends it unless a key of
that company and that first day is set.

* `ends`, `expiring`: the query and the grouping;
* `tick`, `sweeps`: one sweep, and a run of them over the tables as they are at each time;
* `EndsAt`, `Closing`, `Leads`: a menu's end, the menus that close soon, and the end that sets a
  company's day;
* `mem_ends`, `mem_endingRows`: **what the query finds**.
-/

namespace TransportBackend.PlanExpiry

open TransportBackend.KeyedTable
open TransportBackend.NullLogic

/-! ### Rows -/

inductive CompanyFeature
  | suggestions
  | createLoad
  | publishedLoads
  | driverRequests
  | trips
  | drivers
  | channels
  | agent
  | factories
  deriving DecidableEq, Repr

def COMPANY_FEATURE_TITLES : CompanyFeature → String
  | .suggestions => "پیشنهادها"
  | .createLoad => "ثبت بار"
  | .publishedLoads => "بارهای منتشرشده"
  | .driverRequests => "درخواست‌ها"
  | .trips => "سفرها"
  | .drivers => "رانندگان"
  | .channels => "کانال‌ها"
  | .agent => "دستیار هوشمند"
  | .factories => "کارخانه‌ها"

inductive CompanyTier
  | bronze
  | silver
  | gold
  deriving DecidableEq, Repr

def COMPANY_TIER_TITLES : CompanyTier → String
  | .bronze => "برنزی"
  | .silver => "نقره‌ای"
  | .gold => "طلایی"

/-- A row of `User`. -/
structure User where
  id : ℕ
  isParentCompany : Bool
  deriving DecidableEq, Repr

/-- A row of `CompanyFeatureOrder`. -/
structure CompanyFeatureOrder where
  id : ℕ
  tier : Option CompanyTier
  deriving DecidableEq, Repr

/-- A row of `CompanyFeatureGrant`: a period in which a menu is open. -/
structure CompanyFeatureGrant where
  userId : ℕ
  feature : CompanyFeature
  startAt : ℤ
  expireAt : ℤ
  orderId : Option ℕ
  deriving DecidableEq, Repr

/-- The tables. -/
structure Database where
  users : Table User.id
  orders : Table CompanyFeatureOrder.id
  grants : List CompanyFeatureGrant

structure EndingRow where
  userId : ℕ
  feature : CompanyFeature
  endsAt : ℤ
  tier : Option CompanyTier
  deriving DecidableEq, Repr

structure PlanExpiringNotice where
  userId : ℕ
  tierTitle : Option String
  features : List String
  endsAt : ℤ
  daysLeft : ℤ
  deriving DecidableEq, Repr

def DAY_MS : ℤ := 86400000

/-- The first ten characters of the ISO text, as a day's number. -/
def dateOf (time : ℤ) : ℤ := time / DAY_MS

/-! ### The query -/

/-- The period is one of this company's menu. -/
def CompanyFeatureGrant.of (g : CompanyFeatureGrant) (userId : ℕ) (feature : CompanyFeature) : Bool :=
  g.userId = userId && g.feature = feature

/-- The period runs. -/
def CompanyFeatureGrant.runs (g : CompanyFeatureGrant) (now : ℤ) : Bool :=
  g.startAt ≤ now && now < g.expireAt

section Query

variable (db : Database) (remindDays : ℕ) (now : ℤ)

/-- The periods that have not ended, of menus that are open. -/
def openGrants : List CompanyFeatureGrant :=
  db.grants.filter fun g =>
    (now < g.expireAt && g.startAt ≤ now) ||
      (now < g.expireAt && db.grants.any fun s => s.of g.userId g.feature && s.runs now)

/-- `ends`: the open menus and the end of their last period. -/
def ends : List (ℕ × CompanyFeature × ℤ) :=
  (((openGrants db now).map fun g => (g.userId, g.feature)).eraseDups).filterMap fun menu =>
    (maxOf (((openGrants db now).filter fun g => g.of menu.1 menu.2).map
      CompanyFeatureGrant.expireAt)).map fun endsAt => (menu.1, menu.2, endsAt)

/-- The tier of an order that bought the last period. -/
def tierOf (userId : ℕ) (feature : CompanyFeature) (endsAt : ℤ) : Option CompanyTier :=
  ((db.grants.filter fun g => g.of userId feature && g.expireAt = endsAt).filterMap fun g =>
    g.orderId.bind db.orders.get).head?.bind CompanyFeatureOrder.tier

/-- The user exists and is no parent company. -/
def isOrdinary (userId : ℕ) : Bool := (db.users.get userId).any fun user => !user.isParentCompany

/-- The menus that close within the reminder days, the first to close first. -/
def endingRows : List EndingRow :=
  (((ends db now).filter fun menu =>
      isOrdinary db menu.1 && menu.2.2 ≤ now + remindDays * DAY_MS).map fun menu =>
    EndingRow.mk menu.1 menu.2.1 menu.2.2 (tierOf db menu.1 menu.2.1 menu.2.2)).insertionSort
      fun a b => a.endsAt ≤ b.endsAt

/-- The notice of one company's ending menus. -/
def noticeOf (userId : ℕ) (first : EndingRow) (ending : List EndingRow) : PlanExpiringNotice :=
  -- The first to close sets the day; menus that close within a day of it go in the same notice.
  let same := ending.filter fun row => row.endsAt - first.endsAt < DAY_MS
  { userId := userId
    tierTitle := (same.findSome? EndingRow.tier).map fun tier => "طرح " ++ COMPANY_TIER_TITLES tier
    features := same.map fun row => COMPANY_FEATURE_TITLES row.feature
    endsAt := first.endsAt
    daysLeft := max 1 (-((now - first.endsAt) / DAY_MS)) }

/-- One notice a company, in the order its first menu closes. -/
def expiring : List PlanExpiringNotice :=
  (((endingRows db remindDays now).map EndingRow.userId).eraseDups).filterMap fun userId =>
    let ending := (endingRows db remindDays now).filter fun row => row.userId = userId
    ending.head?.map fun first => noticeOf now userId first ending

end Query

/-! ### What the query finds -/

section Found

variable {db : Database} {remindDays : ℕ} {now : ℤ}

/-- **The menu is open, and its last period ends then.** -/
def EndsAt (db : Database) (now : ℤ) (userId : ℕ) (feature : CompanyFeature) (endsAt : ℤ) : Prop :=
  (∃ s ∈ db.grants, s.of userId feature = true ∧ s.runs now = true) ∧
    (∃ g ∈ db.grants, g.of userId feature = true ∧ g.expireAt = endsAt) ∧
      ∀ g ∈ db.grants, g.of userId feature = true → g.expireAt ≤ endsAt

/-- An ordinary company's menu that closes within the reminder days. -/
def Closing (db : Database) (remindDays : ℕ) (now : ℤ) (userId : ℕ) (feature : CompanyFeature)
    (endsAt : ℤ) : Prop :=
  EndsAt db now userId feature endsAt ∧ isOrdinary db userId = true ∧
    endsAt ≤ now + remindDays * DAY_MS

/-- The end of the company's first menu to close. -/
def Leads (db : Database) (remindDays : ℕ) (now : ℤ) (userId : ℕ) (endsAt : ℤ) : Prop :=
  (∃ feature, Closing db remindDays now userId feature endsAt) ∧
    ∀ feature e, Closing db remindDays now userId feature e → endsAt ≤ e

theorem EndsAt.unique {userId : ℕ} {feature : CompanyFeature} {e e' : ℤ}
    (h : EndsAt db now userId feature e) (h' : EndsAt db now userId feature e') : e = e' := by
  obtain ⟨_, ⟨g, hg, hof, rfl⟩, hmax⟩ := h
  obtain ⟨_, ⟨g', hg', hof', rfl⟩, hmax'⟩ := h'
  exact le_antisymm (hmax' g hg hof) (hmax g' hg' hof')

/-- An open menu has not ended. -/
theorem EndsAt.lt {userId : ℕ} {feature : CompanyFeature} {e : ℤ}
    (h : EndsAt db now userId feature e) : now < e := by
  obtain ⟨⟨s, hs, hof, hruns⟩, _, hmax⟩ := h
  have hend : now < s.expireAt := by
    simpa [CompanyFeatureGrant.runs] using (Bool.and_eq_true_iff.mp hruns).2
  exact hend.trans_le (hmax s hs hof)

theorem Leads.unique {userId : ℕ} {e e' : ℤ} (h : Leads db remindDays now userId e)
    (h' : Leads db remindDays now userId e') : e = e' := by
  obtain ⟨⟨f, hf⟩, hmin⟩ := h
  obtain ⟨⟨f', hf'⟩, hmin'⟩ := h'
  exact le_antisymm (hmin f' e' hf') (hmin' f e hf)

theorem Leads.lt {userId : ℕ} {e : ℤ} (h : Leads db remindDays now userId e) : now < e := by
  obtain ⟨⟨f, hf, _⟩, _⟩ := h
  exact hf.lt

theorem Leads.le {userId : ℕ} {e : ℤ} (h : Leads db remindDays now userId e) :
    e ≤ now + remindDays * DAY_MS := by
  obtain ⟨⟨f, _, _, hle⟩, _⟩ := h
  exact hle

theorem of_iff {g : CompanyFeatureGrant} {userId : ℕ} {feature : CompanyFeature} :
    g.of userId feature = true ↔ g.userId = userId ∧ g.feature = feature := by
  simp [CompanyFeatureGrant.of]

theorem mem_openGrants {g : CompanyFeatureGrant} : g ∈ openGrants db now ↔
    g ∈ db.grants ∧ now < g.expireAt ∧
      ∃ s ∈ db.grants, s.of g.userId g.feature = true ∧ s.runs now = true := by
  unfold openGrants
  simp only [List.mem_filter, Bool.or_eq_true, Bool.and_eq_true, decide_eq_true_eq,
    List.any_eq_true]
  constructor
  · rintro ⟨hg, ⟨hend, hstart⟩ | ⟨hend, hopen⟩⟩
    · refine ⟨hg, hend, g, hg, of_iff.mpr ⟨rfl, rfl⟩, ?_⟩
      simp [CompanyFeatureGrant.runs, hstart, hend]
    · exact ⟨hg, hend, hopen⟩
  · rintro ⟨hg, hend, hopen⟩
    exact ⟨hg, .inr ⟨hend, hopen⟩⟩

/-- **The query's first step finds the open menus with their ends.** -/
theorem mem_ends {userId : ℕ} {feature : CompanyFeature} {endsAt : ℤ} :
    (userId, feature, endsAt) ∈ ends db now ↔ EndsAt db now userId feature endsAt := by
  have hmax : (userId, feature, endsAt) ∈ ends db now ↔
      (∃ g ∈ openGrants db now, (g.userId, g.feature) = (userId, feature)) ∧
        maxOf (((openGrants db now).filter fun g => g.of userId feature).map
          CompanyFeatureGrant.expireAt) = some endsAt := by
    simp only [ends, List.mem_filterMap, List.mem_eraseDups, List.mem_map, Option.map_eq_some_iff]
    constructor
    · rintro ⟨menu, hmenu, e, he, heq⟩
      cases heq
      exact ⟨hmenu, he⟩
    · rintro ⟨hmenu, he⟩
      exact ⟨(userId, feature), hmenu, endsAt, he, rfl⟩
  rw [hmax, maxOf_eq_some]
  simp only [List.mem_map, List.mem_filter]
  constructor
  · rintro ⟨_, ⟨g, ⟨hopen, hof⟩, hend⟩, hlargest⟩
    obtain ⟨hg, hlive, s, hs, hsof, hruns⟩ := mem_openGrants.mp hopen
    obtain ⟨huser, hfeature⟩ := of_iff.mp hof
    rw [huser, hfeature] at hsof
    refine ⟨⟨s, hs, hsof, hruns⟩, ⟨g, hg, hof, hend⟩, fun g' hg' hof' => ?_⟩
    by_cases hlive' : now < g'.expireAt
    · obtain ⟨huser', hfeature'⟩ := of_iff.mp hof'
      refine hlargest _ ⟨g', ⟨mem_openGrants.mpr ⟨hg', hlive', s, hs, ?_, hruns⟩, hof'⟩, rfl⟩
      rw [huser', hfeature']
      exact hsof
    · -- A period that has ended is before the one that runs.
      omega
  · rintro h
    obtain ⟨⟨s, hs, hsof, hruns⟩, ⟨g, hg, hof, hend⟩, hlargest⟩ := id h
    have hopenOf : ∀ g' ∈ db.grants, g'.of userId feature = true → now < g'.expireAt →
        g' ∈ openGrants db now := by
      intro g' hg' hof' hlive'
      obtain ⟨huser', hfeature'⟩ := of_iff.mp hof'
      exact mem_openGrants.mpr ⟨hg', hlive', s, hs, by rw [huser', hfeature']; exact hsof, hruns⟩
    have hopen := hopenOf g hg hof (hend ▸ h.lt)
    obtain ⟨huser, hfeature⟩ := of_iff.mp hof
    refine ⟨⟨g, hopen, by rw [huser, hfeature]⟩, ⟨g, ⟨hopen, hof⟩, hend⟩, ?_⟩
    rintro e ⟨g', ⟨hopen', hof'⟩, rfl⟩
    exact hlargest g' (mem_openGrants.mp hopen').1 hof'

theorem mem_endingRows {row : EndingRow} : row ∈ endingRows db remindDays now ↔
    Closing db remindDays now row.userId row.feature row.endsAt ∧
      row.tier = tierOf db row.userId row.feature row.endsAt := by
  simp only [endingRows, List.mem_insertionSort, List.mem_map, List.mem_filter, Bool.and_eq_true,
    decide_eq_true_eq]
  constructor
  · rintro ⟨⟨userId, feature, endsAt⟩, ⟨hends, hordinary, hsoon⟩, rfl⟩
    exact ⟨⟨mem_ends.mp hends, hordinary, hsoon⟩, rfl⟩
  · rintro ⟨⟨hends, hordinary, hsoon⟩, htier⟩
    refine ⟨(row.userId, row.feature, row.endsAt), ⟨mem_ends.mpr hends, hordinary, hsoon⟩, ?_⟩
    rw [← htier]

theorem endingRows_sorted :
    (endingRows db remindDays now).Pairwise fun a b => a.endsAt ≤ b.endsAt := by
  have htotal : Std.Total fun a b : EndingRow => a.endsAt ≤ b.endsAt :=
    ⟨fun a b => le_total a.endsAt b.endsAt⟩
  have htrans : IsTrans EndingRow fun a b => a.endsAt ≤ b.endsAt :=
    ⟨fun _ _ _ hab hbc => hab.trans hbc⟩
  exact List.pairwise_insertionSort _ _

end Found

/-! ### Sweeps -/

/-- When each key of a company and a day ends. -/
abbrev Reminded : Type := ℕ × ℤ → Option ℤ

/-- The key is set and has not expired. -/
def isReminded (reminded : Reminded) (now : ℤ) (key : ℕ × ℤ) : Bool :=
  (reminded key).any fun expiresAt => now < expiresAt

/-- One key a company and the day its first menu closes. -/
def keyOf (notice : PlanExpiringNotice) : ℕ × ℤ := (notice.userId, dateOf notice.endsAt)

/-- The notices sent one after another, each unless its key is set already. -/
def remind (remindDays : ℕ) (now : ℤ) : List PlanExpiringNotice → Reminded →
    List PlanExpiringNotice × Reminded
  | [], reminded => ([], reminded)
  | notice :: notices, reminded =>
      if isReminded reminded now (keyOf notice) then remind remindDays now notices reminded
      else
        let rest := remind remindDays now notices fun key =>
          if key = keyOf notice then some (now + (remindDays + 3) * DAY_MS) else reminded key
        (notice :: rest.1, rest.2)

def tick (remindDays : ℕ) (db : Database) (now : ℤ) (reminded : Reminded) :
    List PlanExpiringNotice × Reminded :=
  remind remindDays now (expiring db remindDays now) reminded

/-- What the sweeps at some times send, one after another, with the tables as they are then. -/
def sweeps (remindDays : ℕ) (history : ℤ → Database) :
    List ℤ → Reminded → List (ℤ × PlanExpiringNotice)
  | [], _ => []
  | now :: ticks, reminded =>
      let swept := tick remindDays (history now) now reminded
      swept.1.map (Prod.mk now) ++ sweeps remindDays history ticks swept.2

end TransportBackend.PlanExpiry
