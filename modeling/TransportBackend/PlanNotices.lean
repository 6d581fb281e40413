import TransportBackend.PlanExpiry

/-!
# How often a closing menu is named

The key of a notice is the company and the day its first menu closes.  So of the sweeps at which some
menu that closes on a given day comes first, only the earliest sends anything.

* `expiring_spec`, `exists_expiring`: one company's notice;
* `remind_eq`: a sweep sends the notices whose key is not set;
* `Kept`: which keys are set after some sweeps;
* `timesNamed_sweeps`: a menu is named at the sweeps that are first for a day, within a day of its end;
* `namedOnce_iff`: **exactly when a closing menu is named once**.
-/

namespace TransportBackend.PlanNotices

open TransportBackend.KeyedTable
open TransportBackend.PlanExpiry

/-! ### One company's notice -/

section Notice

variable {db : Database} {remindDays : ℕ} {now : ℤ}

theorem titles_injective : Function.Injective COMPANY_FEATURE_TITLES := by
  intro a b h
  cases a <;> cases b <;> first | rfl | exact absurd h (by decide)

/-- **What a company's notice says**: the day of its first menu, and the menus within a day of it. -/
theorem expiring_spec {notice : PlanExpiringNotice} (h : notice ∈ expiring db remindDays now) :
    Leads db remindDays now notice.userId notice.endsAt ∧
      ∀ feature, COMPANY_FEATURE_TITLES feature ∈ notice.features ↔
        ∃ e, Closing db remindDays now notice.userId feature e ∧ e - notice.endsAt < DAY_MS := by
  simp only [expiring, List.mem_filterMap, List.mem_eraseDups, Option.map_eq_some_iff] at h
  obtain ⟨userId, _, first, hfirst, rfl⟩ := h
  set ending := (endingRows db remindDays now).filter fun row => row.userId = userId with hending
  have hmem : ∀ row, row ∈ ending ↔ row ∈ endingRows db remindDays now ∧ row.userId = userId := by
    intro row
    simp [hending]
  have hfirstMem : first ∈ ending := List.mem_of_head? hfirst
  have hsorted : ending.Pairwise fun a b => a.endsAt ≤ b.endsAt := endingRows_sorted.filter _
  have hmin : ∀ row ∈ ending, first.endsAt ≤ row.endsAt := by
    intro row hrow
    cases hlist : ending with
    | nil => simp [hlist] at hrow
    | cons x l =>
        rw [hlist] at hfirst hrow hsorted
        obtain rfl : x = first := by simpa using hfirst
        rcases List.mem_cons.mp hrow with rfl | hrow
        · exact le_rfl
        · exact (List.pairwise_cons.mp hsorted).1 row hrow
  obtain ⟨hfirstRow, hfirstUser⟩ := (hmem first).mp hfirstMem
  have hclosing := (mem_endingRows.mp hfirstRow).1
  rw [hfirstUser] at hclosing
  refine ⟨⟨⟨first.feature, hclosing⟩, fun feature e he => ?_⟩, fun feature => ?_⟩
  · exact hmin ⟨userId, feature, e, tierOf db userId feature e⟩
      ((hmem _).mpr ⟨mem_endingRows.mpr ⟨he, rfl⟩, rfl⟩)
  · show COMPANY_FEATURE_TITLES feature ∈ (ending.filter fun row =>
      row.endsAt - first.endsAt < DAY_MS).map (fun row => COMPANY_FEATURE_TITLES row.feature) ↔ _
    simp only [List.mem_map, List.mem_filter, decide_eq_true_eq]
    constructor
    · rintro ⟨row, ⟨hrow, hday⟩, htitle⟩
      obtain ⟨hrowMem, hrowUser⟩ := (hmem row).mp hrow
      obtain rfl := titles_injective htitle
      exact ⟨row.endsAt, hrowUser ▸ (mem_endingRows.mp hrowMem).1, hday⟩
    · rintro ⟨e, he, hday⟩
      exact ⟨⟨userId, feature, e, tierOf db userId feature e⟩,
        ⟨(hmem _).mpr ⟨mem_endingRows.mpr ⟨he, rfl⟩, rfl⟩, hday⟩, rfl⟩

/-- A company with a menu that closes soon has a notice. -/
theorem exists_expiring {userId : ℕ} {e : ℤ} (h : Leads db remindDays now userId e) :
    ∃ notice ∈ expiring db remindDays now, notice.userId = userId := by
  obtain ⟨⟨feature, hclosing⟩, _⟩ := h
  have hrow : (⟨userId, feature, e, tierOf db userId feature e⟩ : EndingRow) ∈
      (endingRows db remindDays now).filter fun row => row.userId = userId :=
    List.mem_filter.mpr ⟨mem_endingRows.mpr ⟨hclosing, rfl⟩, by simp⟩
  obtain ⟨first, hfirst⟩ : ∃ first, ((endingRows db remindDays now).filter
      fun row => row.userId = userId).head? = some first := by
    cases hlist : (endingRows db remindDays now).filter fun row => row.userId = userId with
    | nil => simp [hlist] at hrow
    | cons x l => exact ⟨x, rfl⟩
  refine ⟨noticeOf now userId first ((endingRows db remindDays now).filter
    fun row => row.userId = userId), ?_, rfl⟩
  simp only [expiring, List.mem_filterMap, List.mem_eraseDups, Option.map_eq_some_iff]
  exact ⟨userId, List.mem_map.mpr ⟨_, (List.mem_filter.mp hrow).1, rfl⟩, first, hfirst, rfl⟩

/-- Values with their keys, for some of the keys in order. -/
theorem map_filterMap_key {α β : Type} {f : α → Option β} {key : β → α}
    (h : ∀ a b, f a = some b → key b = a) (l : List α) :
    (l.filterMap f).map key = l.filter fun a => (f a).isSome := by
  induction l with
  | nil => rfl
  | cons a l ih =>
      cases hf : f a with
      | none => rw [List.filterMap_cons_none hf, ih, List.filter_cons_of_neg (by simp [hf])]
      | some b =>
          rw [List.filterMap_cons_some hf, List.map_cons, ih, h a b hf,
            List.filter_cons_of_pos (by simp [hf])]

theorem nodup_eraseDups {α : Type} [DecidableEq α] (l : List α) : l.eraseDups.Nodup := by
  induction hn : l.length using Nat.strong_induction_on generalizing l with
  | _ n ih =>
      cases l with
      | nil => simp
      | cons a l =>
          rw [List.eraseDups_cons, List.nodup_cons]
          have hlength : (l.filter fun b => !b == a).length < n := by
            have hle := List.length_filter_le (fun b => !b == a) l
            rw [List.length_cons] at hn
            omega
          exact ⟨by simp, ih _ hlength _ rfl⟩

/-- A company has one notice at a sweep. -/
theorem expiring_nodup : ((expiring db remindDays now).map PlanExpiringNotice.userId).Nodup := by
  unfold expiring
  rw [map_filterMap_key]
  · exact (nodup_eraseDups _).filter _
  · intro userId notice hnotice
    obtain ⟨first, _, rfl⟩ := Option.map_eq_some_iff.mp hnotice
    rfl

/-- Of rows with different keys, those with one key are one row or none. -/
theorem filter_key_le_one {α β : Type} [DecidableEq β] {f : α → β} {l : List α}
    (h : (l.map f).Nodup) {a : α} (ha : a ∈ l) : (l.filter fun b => f b = f a) = [a] := by
  induction l with
  | nil => exact absurd ha List.not_mem_nil
  | cons b l ih =>
      obtain ⟨hnew, hrest⟩ := List.nodup_cons.mp h
      rcases List.mem_cons.mp ha with rfl | ha
      · rw [List.filter_cons_of_pos (by simp), List.filter_eq_nil_iff.mpr]
        intro c hc heq
        exact hnew (List.mem_map.mpr ⟨c, hc, of_decide_eq_true heq⟩)
      · have hne : f b ≠ f a := fun heq => hnew (List.mem_map.mpr ⟨a, ha, heq.symm⟩)
        rw [List.filter_cons_of_neg (by simpa using hne)]
        exact ih hrest ha

end Notice

/-! ### One sweep -/

/-- **A sweep sends the notices whose key is not set.** -/
theorem remind_eq {remindDays : ℕ} {now : ℤ} {notices : List PlanExpiringNotice}
    (h : (notices.map PlanExpiringNotice.userId).Nodup) (reminded : Reminded) :
    (remind remindDays now notices reminded).1 =
      notices.filter fun notice => !isReminded reminded now (keyOf notice) := by
  induction notices generalizing reminded with
  | nil => rfl
  | cons notice notices ih =>
      obtain ⟨hnew, hrest⟩ := List.nodup_cons.mp h
      by_cases hset : isReminded reminded now (keyOf notice) = true
      · rw [remind, if_pos hset, ih hrest, List.filter_cons_of_neg (by simp [hset])]
      · rw [remind, if_neg hset, List.filter_cons_of_pos (by simpa using hset)]
        dsimp only
        rw [ih hrest]
        congr 1
        refine List.filter_congr fun other hother => ?_
        have hne : keyOf other ≠ keyOf notice := by
          intro heq
          exact hnew (List.mem_map.mpr ⟨other, hother, congrArg Prod.fst heq⟩)
        have hsame : (if keyOf other = keyOf notice then
            some (now + (remindDays + 3) * DAY_MS) else reminded (keyOf other)) =
              reminded (keyOf other) := if_neg hne
        simp only [isReminded, hsame]

/-- A key no notice has stays as it was. -/
theorem remind_key_of_notMem {remindDays : ℕ} {now : ℤ} {notices : List PlanExpiringNotice}
    {key : ℕ × ℤ} (h : ∀ notice ∈ notices, keyOf notice ≠ key) (reminded : Reminded) :
    (remind remindDays now notices reminded).2 key = reminded key := by
  induction notices generalizing reminded with
  | nil => rfl
  | cons notice notices ih =>
      have hrest := ih fun other hother => h other (List.mem_cons_of_mem _ hother)
      rw [remind]
      split
      · exact hrest reminded
      · dsimp only
        rw [hrest]
        exact if_neg fun heq => h notice List.mem_cons_self heq.symm

/-- A notice's key is set afterwards, from then on if it was not. -/
theorem remind_key_of_mem (remindDays : ℕ) (now : ℤ) {notices : List PlanExpiringNotice}
    {notice : PlanExpiringNotice} (h : (notices.map PlanExpiringNotice.userId).Nodup)
    (hmem : notice ∈ notices) (reminded : Reminded) :
    (remind remindDays now notices reminded).2 (keyOf notice) =
      if isReminded reminded now (keyOf notice) = true then reminded (keyOf notice)
      else some (now + (remindDays + 3) * DAY_MS) := by
  induction notices generalizing reminded with
  | nil => exact absurd hmem List.not_mem_nil
  | cons other notices ih =>
      obtain ⟨hnew, hrest⟩ := List.nodup_cons.mp h
      rcases List.mem_cons.mp hmem with rfl | hmem
      · have hnotMem : ∀ n ∈ notices, keyOf n ≠ keyOf notice := by
          intro n hn heq
          exact hnew (List.mem_map.mpr ⟨n, hn, congrArg Prod.fst heq⟩)
        by_cases hset : isReminded reminded now (keyOf notice) = true
        · rw [remind, if_pos hset, if_pos hset, remind_key_of_notMem hnotMem]
        · rw [remind, if_neg hset, if_neg hset]
          dsimp only
          rw [remind_key_of_notMem hnotMem]
          exact if_pos rfl
      · have hne : keyOf notice ≠ keyOf other := by
          intro heq
          exact hnew (List.mem_map.mpr ⟨notice, hmem, congrArg Prod.fst heq⟩)
        by_cases hset : isReminded reminded now (keyOf other) = true
        · rw [remind, if_pos hset, ih hrest hmem]
        · rw [remind, if_neg hset]
          dsimp only
          rw [ih hrest hmem]
          have hsame : (if keyOf notice = keyOf other then
              some (now + (remindDays + 3) * DAY_MS) else reminded (keyOf notice)) =
                reminded (keyOf notice) := if_neg hne
          have hset' : isReminded (fun key => if key = keyOf other then
              some (now + (remindDays + 3) * DAY_MS) else reminded key) now (keyOf notice) =
                isReminded reminded now (keyOf notice) := by
            simp only [isReminded, hsame]
          rw [hset', hsame]

/-! ### Runs -/

section Runs

variable {remindDays : ℕ} {history : ℤ → Database} {userId : ℕ} {feature : CompanyFeature}

/-- How many notices sent to the company in a stretch of time name the menu. -/
def timesNamed (userId : ℕ) (feature : CompanyFeature) (from_ until_ : ℤ)
    (sent : List (ℤ × PlanExpiringNotice)) : ℕ :=
  sent.countP fun entry => entry.2.userId = userId && (from_ ≤ entry.1 && entry.1 < until_ &&
    COMPANY_FEATURE_TITLES feature ∈ entry.2.features)

/-- At that time the company's first menu to close does so on that day. -/
def LeadsOn (remindDays : ℕ) (history : ℤ → Database) (userId : ℕ) (t day : ℤ) : Prop :=
  ∃ e, Leads (history t) remindDays t userId e ∧ dateOf e = day

/-- The earliest of the sweeps at which the company's first menu to close does so on that day. -/
def FirstFor (remindDays : ℕ) (history : ℤ → Database) (userId : ℕ) (ticks : List ℤ)
    (day t : ℤ) : Prop :=
  t ∈ ticks ∧ LeadsOn remindDays history userId t day ∧
    ∀ s ∈ ticks, s < t → ¬ LeadsOn remindDays history userId s day

/-- What the keys of a company say of the sweeps there were. -/
def Kept (remindDays : ℕ) (history : ℤ → Database) (userId : ℕ) (past : List ℤ)
    (reminded : Reminded) : Prop :=
  ∀ day, (reminded (userId, day) = none → ∀ s ∈ past, ¬ LeadsOn remindDays history userId s day) ∧
    ∀ x, reminded (userId, day) = some x →
      ∃ s ∈ past, LeadsOn remindDays history userId s day ∧ x = s + (remindDays + 3) * DAY_MS

theorem kept_nil : Kept remindDays history userId [] fun _ => none :=
  fun _ => ⟨fun _ _ hs => absurd hs List.not_mem_nil, fun _ hx => by cases hx⟩

/-- **A key outlives its day**: while a menu that closes on a day comes first, the key of that day has
not expired since it was set. -/
theorem isReminded_iff {past : List ℤ} {reminded : Reminded}
    (hkept : Kept remindDays history userId past reminded) {t e : ℤ}
    (hlead : Leads (history t) remindDays t userId e) :
    isReminded reminded t (userId, dateOf e) = true ↔
      ∃ s ∈ past, LeadsOn remindDays history userId s (dateOf e) := by
  obtain ⟨hnone, hsome⟩ := hkept (dateOf e)
  cases hkey : reminded (userId, dateOf e) with
  | none =>
      simp only [isReminded, hkey, Option.any_none, Bool.false_eq_true, false_iff]
      rintro ⟨s, hs, hleads⟩
      exact hnone hkey s hs hleads
  | some x =>
      obtain ⟨s, hs, hleads, rfl⟩ := hsome x hkey
      have halive : t < s + (remindDays + 3) * DAY_MS := by
        obtain ⟨e', hlead', hday⟩ := hleads
        have hlt := hlead.lt
        have hle := hlead'.le
        simp only [dateOf, DAY_MS] at hday hle ⊢
        omega
      simp only [isReminded, hkey, Option.any_some, halive, decide_true, true_iff]
      exact ⟨s, hs, hleads⟩

theorem key_of_expiring {db : Database} {now e : ℤ} (hlead : Leads db remindDays now userId e)
    {notice : PlanExpiringNotice} (hnotice : notice ∈ expiring db remindDays now)
    (huser : notice.userId = userId) : notice.endsAt = e ∧ keyOf notice = (userId, dateOf e) := by
  have hends : notice.endsAt = e := (huser ▸ (expiring_spec hnotice).1).unique hlead
  exact ⟨hends, by rw [keyOf, hends, huser]⟩

/-- **A sweep adds its own day to the keys.** -/
theorem Kept.tick {past : List ℤ} {reminded : Reminded}
    (hkept : Kept remindDays history userId past reminded) (t : ℤ) :
    Kept remindDays history userId (past ++ [t]) (tick remindDays (history t) t reminded).2 := by
  intro day
  obtain ⟨hnone, hsome⟩ := hkept day
  by_cases hday : LeadsOn remindDays history userId t day
  · obtain ⟨e, hlead, rfl⟩ := hday
    obtain ⟨notice, hnotice, huser⟩ := exists_expiring hlead
    obtain ⟨_, hkey⟩ := key_of_expiring hlead hnotice huser
    have hafter := remind_key_of_mem remindDays t expiring_nodup hnotice reminded
    rw [hkey] at hafter
    unfold PlanExpiry.tick
    rw [hafter]
    by_cases hset : isReminded reminded t (userId, dateOf e) = true
    · rw [if_pos hset]
      refine ⟨fun hkeyNone => ?_, fun x hx => ?_⟩
      · simp [isReminded, hkeyNone] at hset
      · obtain ⟨s, hs, hleads, hx⟩ := hsome x hx
        exact ⟨s, List.mem_append_left _ hs, hleads, hx⟩
    · rw [if_neg hset]
      refine ⟨fun hkeyNone => (by cases hkeyNone), fun x hx => ?_⟩
      exact ⟨t, by simp, ⟨e, hlead, rfl⟩, (Option.some.inj hx).symm⟩
  · -- No notice of this sweep has the key.
    have hother : ∀ notice ∈ expiring (history t) remindDays t, keyOf notice ≠ (userId, day) := by
      intro notice hnotice heq
      obtain ⟨huser, hdate⟩ := Prod.mk.inj heq
      exact hday ⟨notice.endsAt, huser ▸ (expiring_spec hnotice).1, hdate⟩
    unfold PlanExpiry.tick
    rw [remind_key_of_notMem hother]
    refine ⟨fun hkeyNone s hs => ?_, fun x hx => ?_⟩
    · rcases List.mem_append.mp hs with hs | hs
      · exact hnone hkeyNone s hs
      · rw [List.mem_singleton.mp hs]
        exact hday
    · obtain ⟨s, hs, hleads, hx⟩ := hsome x hx
      exact ⟨s, List.mem_append_left _ hs, hleads, hx⟩

/-- The menu is among those within a day of the company's first one. -/
def Grouped (remindDays : ℕ) (history : ℤ → Database) (userId : ℕ) (feature : CompanyFeature)
    (t e : ℤ) : Prop :=
  ∃ e', Closing (history t) remindDays t userId feature e' ∧ e' - e < DAY_MS

/-- A sweep's notices to one company. -/
theorem timesNamed_eq (reminded : Reminded) (from_ until_ t : ℤ) :
    timesNamed userId feature from_ until_
        ((tick remindDays (history t) t reminded).1.map (Prod.mk t)) =
      ((expiring (history t) remindDays t).filter fun notice => notice.userId = userId).countP
        fun notice => from_ ≤ t && t < until_ && COMPANY_FEATURE_TITLES feature ∈ notice.features &&
          !isReminded reminded t (keyOf notice) := by
  unfold timesNamed PlanExpiry.tick
  rw [remind_eq expiring_nodup, List.countP_map, List.countP_filter, List.countP_filter]
  refine List.countP_congr fun notice _ => ?_
  simp only [Function.comp, Bool.and_eq_true, decide_eq_true_eq]
  tauto

open Classical in
/-- What one sweep sends of the menu. -/
theorem timesNamed_tick {past : List ℤ} {reminded : Reminded}
    (hkept : Kept remindDays history userId past reminded) (from_ until_ t : ℤ) :
    timesNamed userId feature from_ until_
        ((tick remindDays (history t) t reminded).1.map (Prod.mk t)) =
      if from_ ≤ t ∧ t < until_ ∧ ∃ e, Leads (history t) remindDays t userId e ∧
          Grouped remindDays history userId feature t e ∧
          ∀ s ∈ past, ¬ LeadsOn remindDays history userId s (dateOf e) then 1
      else 0 := by
  rw [timesNamed_eq]
  by_cases hleads : ∃ e, Leads (history t) remindDays t userId e
  · obtain ⟨e, hlead⟩ := hleads
    obtain ⟨notice, hnotice, huser⟩ := exists_expiring hlead
    obtain ⟨hends, hkey⟩ := key_of_expiring hlead hnotice huser
    have hone := filter_key_le_one expiring_nodup hnotice
    rw [huser] at hone
    have hnamed : COMPANY_FEATURE_TITLES feature ∈ notice.features ↔
        Grouped remindDays history userId feature t e := by
      rw [(expiring_spec hnotice).2 feature, huser, hends]
      exact Iff.rfl
    have hfree : isReminded reminded t (keyOf notice) = false ↔
        ∀ s ∈ past, ¬ LeadsOn remindDays history userId s (dateOf e) := by
      rw [hkey, ← Bool.not_eq_true, isReminded_iff hkept hlead]
      simp
    rw [hone, List.countP_singleton]
    refine if_congr ?_ rfl rfl
    simp only [Bool.and_eq_true, decide_eq_true_eq, Bool.not_eq_true', hnamed, hfree, and_assoc]
    refine and_congr_right fun _ => and_congr_right fun _ => ?_
    constructor
    · rintro ⟨hgrouped, hfirst⟩
      exact ⟨e, hlead, hgrouped, hfirst⟩
    · rintro ⟨e', hlead', hgrouped, hfirst⟩
      rw [hlead.unique hlead']
      exact ⟨hgrouped, hfirst⟩
  · have hnil : (expiring (history t) remindDays t).filter (fun notice => notice.userId = userId) =
        [] := by
      refine List.filter_eq_nil_iff.mpr fun notice hnotice huser => hleads ⟨notice.endsAt, ?_⟩
      have hspec := (expiring_spec hnotice).1
      rwa [of_decide_eq_true huser] at hspec
    rw [hnil, if_neg fun h => hleads (by obtain ⟨_, _, e, hlead, _⟩ := h; exact ⟨e, hlead⟩)]
    rfl

/-- The sweep names the menu: it is the first for the day of the company's first menu, which closes less
than a day before. -/
def Told (remindDays : ℕ) (history : ℤ → Database) (userId : ℕ) (feature : CompanyFeature)
    (ticks : List ℤ) (from_ until_ t : ℤ) : Prop :=
  from_ ≤ t ∧ t < until_ ∧ ∃ e, Leads (history t) remindDays t userId e ∧
    Grouped remindDays history userId feature t e ∧
    FirstFor remindDays history userId ticks (dateOf e) t

theorem timesNamed_append (from_ until_ : ℤ) (l l' : List (ℤ × PlanExpiringNotice)) :
    timesNamed userId feature from_ until_ (l ++ l') =
      timesNamed userId feature from_ until_ l + timesNamed userId feature from_ until_ l' :=
  List.countP_append

open Classical in
/-- **A run names the menu once for each sweep that does.** -/
theorem timesNamed_sweeps {past rest : List ℤ} {reminded : Reminded}
    (hkept : Kept remindDays history userId past reminded)
    (hsorted : (past ++ rest).Pairwise (· < ·)) (from_ until_ : ℤ) :
    timesNamed userId feature from_ until_ (sweeps remindDays history rest reminded) =
      (rest.filter (Told remindDays history userId feature (past ++ rest) from_ until_)).length := by
  induction rest generalizing past reminded with
  | nil => rfl
  | cons t rest ih =>
      have hassoc : past ++ t :: rest = past ++ [t] ++ rest := by simp
      have hearlier : ∀ s, s ∈ past ++ t :: rest → (s < t ↔ s ∈ past) := by
        intro s hs
        obtain ⟨_, hrest, hcross⟩ := List.pairwise_append.mp hsorted
        constructor
        · intro hlt
          rcases List.mem_append.mp hs with hs | hs
          · exact hs
          · rcases List.mem_cons.mp hs with rfl | hs
            · exact absurd hlt (lt_irrefl _)
            · exact absurd hlt (not_lt.mpr ((List.pairwise_cons.mp hrest).1 s hs).le)
        · exact fun hs => hcross s hs t List.mem_cons_self
      have htold : (from_ ≤ t ∧ t < until_ ∧ ∃ e, Leads (history t) remindDays t userId e ∧
          Grouped remindDays history userId feature t e ∧
          ∀ s ∈ past, ¬ LeadsOn remindDays history userId s (dateOf e)) ↔
          Told remindDays history userId feature (past ++ t :: rest) from_ until_ t := by
        refine and_congr_right fun _ => and_congr_right fun _ => ?_
        constructor
        · rintro ⟨e, hlead, hgrouped, hfirst⟩
          refine ⟨e, hlead, hgrouped, by simp, ⟨e, hlead, rfl⟩, fun s hs hlt => ?_⟩
          exact hfirst s ((hearlier s hs).mp hlt)
        · rintro ⟨e, hlead, hgrouped, _, _, hfirst⟩
          refine ⟨e, hlead, hgrouped, fun s hs => hfirst s (List.mem_append_left _ hs) ?_⟩
          exact (hearlier s (List.mem_append_left _ hs)).mpr hs
      have hrest := ih (hkept.tick t) (hassoc ▸ hsorted)
      rw [← hassoc] at hrest
      rw [sweeps, timesNamed_append, timesNamed_tick hkept, hrest, List.filter_cons]
      by_cases h : Told remindDays history userId feature (past ++ t :: rest) from_ until_ t
      · rw [if_pos (htold.mpr h), if_pos (decide_eq_true h), List.length_cons, Nat.add_comm]
      · rw [if_neg fun hc => h (htold.mp hc), if_neg (by simpa using h), Nat.zero_add]

/-! ### Named once -/

open Classical in
theorem length_filter_unique {α : Type} {l : List α} (hl : l.Nodup) {p : α → Prop}
    (h : ∀ a ∈ l, p a → ∀ b ∈ l, p b → a = b) :
    (l.filter fun a => p a).length = if ∃ a ∈ l, p a then 1 else 0 := by
  by_cases hex : ∃ a ∈ l, p a
  · obtain ⟨a, ha, hpa⟩ := id hex
    have hone : (l.filter fun b => p b) = [a] := by
      have hkey := filter_key_le_one (f := id) (by simpa using hl) ha
      rw [← hkey]
      refine List.filter_congr fun b hb => ?_
      rw [decide_eq_decide]
      exact ⟨fun hpb => h b hb hpb a ha hpa, fun hba => by rw [show b = a from hba]; exact hpa⟩
    rw [hone, if_pos hex]
    rfl
  · rw [if_neg hex, List.filter_eq_nil_iff.mpr fun a ha hpa => hex ⟨a, ha, of_decide_eq_true hpa⟩]
    rfl

open Classical in
theorem length_filter_or {α : Type} {l : List α} {p q : α → Prop}
    (h : ∀ a ∈ l, p a → ¬ q a) :
    (l.filter fun a => p a ∨ q a).length =
      (l.filter fun a => p a).length + (l.filter fun a => q a).length := by
  induction l with
  | nil => rfl
  | cons a l ih =>
      have hl := ih fun b hb => h b (List.mem_cons_of_mem a hb)
      by_cases hp : p a
      · have hq : ¬ q a := h a List.mem_cons_self hp
        rw [List.filter_cons_of_pos (by simp [hp]), List.filter_cons_of_pos (by simp [hp]),
          List.filter_cons_of_neg (by simp [hq]), List.length_cons, List.length_cons, hl]
        omega
      · by_cases hq : q a
        · rw [List.filter_cons_of_pos (by simp [hq]), List.filter_cons_of_neg (by simp [hp]),
            List.filter_cons_of_pos (by simp [hq]), List.length_cons, List.length_cons, hl]
          omega
        · rw [List.filter_cons_of_neg (by simp [hp, hq]), List.filter_cons_of_neg (by simp [hp]),
            List.filter_cons_of_neg (by simp [hq]), hl]

/-- Only one sweep is the first for a day. -/
theorem FirstFor.unique {ticks : List ℤ} {day t t' : ℤ}
    (h : FirstFor remindDays history userId ticks day t)
    (h' : FirstFor remindDays history userId ticks day t') : t = t' := by
  rcases lt_trichotomy t t' with hlt | heq | hlt
  · exact absurd h.2.1 (h'.2.2 t h.1 hlt)
  · exact heq
  · exact absurd h'.2.1 (h.2.2 t' h'.1 hlt)

section Once

variable {ticks : List ℤ} {endsAt : ℤ}

/-- The sweep is the first for the menu's own day, while the menu is about to close. -/
def FirstOnDay (remindDays : ℕ) (history : ℤ → Database) (userId : ℕ) (ticks : List ℤ)
    (endsAt t : ℤ) : Prop :=
  endsAt - remindDays * DAY_MS ≤ t ∧ t < endsAt ∧
    FirstFor remindDays history userId ticks (dateOf endsAt) t

/-- The sweep is the first for the day before, and the company's first menu closes less than a day
before this one. -/
def FirstDayBefore (remindDays : ℕ) (history : ℤ → Database) (userId : ℕ) (ticks : List ℤ)
    (endsAt t : ℤ) : Prop :=
  endsAt - remindDays * DAY_MS ≤ t ∧ t < endsAt ∧
    FirstFor remindDays history userId ticks (dateOf endsAt - 1) t ∧
      ∃ e, Leads (history t) remindDays t userId e ∧ endsAt - e < DAY_MS

/-- **A menu is named at the first sweep for its own day and at the first for the day before.** -/
theorem told_iff {t : ℤ} (ht : t ∈ ticks)
    (hcloses : ∀ t ∈ ticks, endsAt - remindDays * DAY_MS ≤ t → t < endsAt →
      EndsAt (history t) t userId feature endsAt ∧ isOrdinary (history t) userId = true) :
    Told remindDays history userId feature ticks (endsAt - remindDays * DAY_MS) endsAt t ↔
      FirstOnDay remindDays history userId ticks endsAt t ∨
        FirstDayBefore remindDays history userId ticks endsAt t := by
  have hle : ∀ e, endsAt - remindDays * DAY_MS ≤ t → t < endsAt →
      Leads (history t) remindDays t userId e → e ≤ endsAt := by
    intro e hfrom huntil hlead
    obtain ⟨hends, hordinary⟩ := hcloses t ht hfrom huntil
    exact hlead.2 feature endsAt ⟨hends, hordinary, by omega⟩
  have hgroup : ∀ e, endsAt - remindDays * DAY_MS ≤ t → t < endsAt → endsAt - e < DAY_MS →
      Grouped remindDays history userId feature t e := by
    intro e hfrom huntil hday
    obtain ⟨hends, hordinary⟩ := hcloses t ht hfrom huntil
    exact ⟨endsAt, ⟨hends, hordinary, by omega⟩, hday⟩
  constructor
  · rintro ⟨hfrom, huntil, e, hlead, ⟨e', hclosing, hday⟩, hfirst⟩
    obtain rfl : e' = endsAt := hclosing.1.unique (hcloses t ht hfrom huntil).1
    have hbefore := hle e hfrom huntil hlead
    have hdates : dateOf e = dateOf e' ∨ dateOf e = dateOf e' - 1 := by
      simp only [dateOf, DAY_MS] at hday ⊢
      omega
    rcases hdates with hdate | hdate
    · exact .inl ⟨hfrom, huntil, hdate ▸ hfirst⟩
    · exact .inr ⟨hfrom, huntil, hdate ▸ hfirst, e, hlead, hday⟩
  · rintro (⟨hfrom, huntil, hfirst⟩ | ⟨hfrom, huntil, hfirst, e, hlead, hday⟩)
    · obtain ⟨e, hlead, hdate⟩ := hfirst.2.1
      have hday : endsAt - e < DAY_MS := by
        simp only [dateOf, DAY_MS] at hdate ⊢
        omega
      exact ⟨hfrom, huntil, e, hlead, hgroup e hfrom huntil hday, hdate ▸ hfirst⟩
    · obtain ⟨e', hlead', hdate⟩ := hfirst.2.1
      obtain rfl := hlead.unique hlead'
      exact ⟨hfrom, huntil, e, hlead, hgroup e hfrom huntil hday, hdate ▸ hfirst⟩

end Once

end Runs

/-- **A closing menu is named once exactly when one of two sweeps falls in its reminder days**: the first
sweep at which the company's first menu to close does so on the menu's own day, or the first at which it
does so the day before, less than a day before the menu. -/
theorem namedOnce_iff (remindDays : ℕ) (history : ℤ → Database) (userId : ℕ)
    (feature : CompanyFeature) (ticks : List ℤ) (endsAt : ℤ) (hsorted : ticks.Pairwise (· < ·))
    (hcloses : ∀ t ∈ ticks, endsAt - remindDays * DAY_MS ≤ t → t < endsAt →
      EndsAt (history t) t userId feature endsAt ∧ isOrdinary (history t) userId = true) :
    timesNamed userId feature (endsAt - remindDays * DAY_MS) endsAt
        (sweeps remindDays history ticks fun _ => none) = 1 ↔
      Xor (∃ t ∈ ticks, FirstOnDay remindDays history userId ticks endsAt t)
        (∃ t ∈ ticks, FirstDayBefore remindDays history userId ticks endsAt t) := by
  classical
  have hnodup : ticks.Nodup := hsorted.imp fun h => ne_of_lt h
  have hdisjoint : ∀ t ∈ ticks, FirstOnDay remindDays history userId ticks endsAt t →
      ¬ FirstDayBefore remindDays history userId ticks endsAt t := by
    rintro t _ ⟨_, _, _, ⟨e, hlead, hdate⟩, _⟩ ⟨_, _, ⟨_, ⟨e', hlead', hdate'⟩, _⟩, _⟩
    rw [← hlead.unique hlead', hdate] at hdate'
    omega
  have hone := length_filter_unique hnodup
    (p := FirstOnDay remindDays history userId ticks endsAt)
    fun t _ ht t' _ ht' => ht.2.2.unique ht'.2.2
  have htwo := length_filter_unique hnodup
    (p := FirstDayBefore remindDays history userId ticks endsAt)
    fun t _ ht t' _ ht' => ht.2.2.1.unique ht'.2.2.1
  have hkept : Kept remindDays history userId [] fun _ => none := kept_nil
  have hcount : timesNamed userId feature (endsAt - remindDays * DAY_MS) endsAt
      (sweeps remindDays history ticks fun _ => none) =
        (if ∃ t ∈ ticks, FirstOnDay remindDays history userId ticks endsAt t then 1 else 0) +
          if ∃ t ∈ ticks, FirstDayBefore remindDays history userId ticks endsAt t then 1 else 0 := by
    calc timesNamed userId feature (endsAt - remindDays * DAY_MS) endsAt
          (sweeps remindDays history ticks fun _ => none)
        = (ticks.filter (Told remindDays history userId feature ticks
            (endsAt - remindDays * DAY_MS) endsAt)).length :=
          timesNamed_sweeps hkept hsorted _ _
      _ = (ticks.filter fun t => FirstOnDay remindDays history userId ticks endsAt t ∨
            FirstDayBefore remindDays history userId ticks endsAt t).length := by
          congr 1
          refine List.filter_congr fun t ht => ?_
          rw [decide_eq_decide]
          exact told_iff ht hcloses
      _ = _ := by rw [length_filter_or hdisjoint, hone, htwo]
  rw [hcount]
  by_cases hday : ∃ t ∈ ticks, FirstOnDay remindDays history userId ticks endsAt t
  · by_cases hbefore : ∃ t ∈ ticks, FirstDayBefore remindDays history userId ticks endsAt t
    · rw [if_pos hday, if_pos hbefore]
      simp [Xor, hday, hbefore]
    · rw [if_pos hday, if_neg hbefore]
      simp [Xor, hday, hbefore]
  · by_cases hbefore : ∃ t ∈ ticks, FirstDayBefore remindDays history userId ticks endsAt t
    · rw [if_neg hday, if_pos hbefore]
      simp [Xor, hday, hbefore]
    · rw [if_neg hday, if_neg hbefore]
      simp [Xor, hday, hbefore]

/-! ### Two menus that close on one day -/

def HOUR_MS : ℤ := 3600000

/-- A company whose menu of drivers closes at one o'clock of a day, and its menu of trips at eleven in the
evening. -/
def twoMenus : Database where
  users := Table.empty.put ⟨1, false⟩
  orders := Table.empty
  grants := [⟨1, .drivers, 0, 20 * DAY_MS + 1 * HOUR_MS, none⟩,
    ⟨1, .trips, 0, 20 * DAY_MS + 23 * HOUR_MS, none⟩]

/-- A sweep every hour, from eight days before that day to its end. -/
def hourly : List ℤ := (List.range 217).map fun i : ℕ => (288 + (i : ℤ)) * HOUR_MS

theorem hourly_sorted : hourly.Pairwise (· < ·) := by
  unfold hourly
  refine List.pairwise_map.mpr (List.pairwise_lt_range.imp fun h => ?_)
  simp only [HOUR_MS]
  omega

/-- An open menu of the company, with its only period. -/
theorem endsAt_twoMenus {feature : CompanyFeature} {endsAt t : ℤ}
    (hgrant : (⟨1, feature, 0, endsAt, none⟩ : CompanyFeatureGrant) ∈ twoMenus.grants)
    (hlast : ∀ g ∈ twoMenus.grants, g.of 1 feature = true → g.expireAt ≤ endsAt)
    (hstart : 0 ≤ t) (hend : t < endsAt) :
    EndsAt twoMenus t 1 feature endsAt ∧ isOrdinary twoMenus 1 = true := by
  have hof : (⟨1, feature, 0, endsAt, none⟩ : CompanyFeatureGrant).of 1 feature = true :=
    of_iff.mpr ⟨rfl, rfl⟩
  refine ⟨⟨⟨_, hgrant, hof, ?_⟩, ⟨_, hgrant, hof, rfl⟩, hlast⟩, by decide⟩
  simp [CompanyFeatureGrant.runs, hstart, hend]

/-- The menu that closes first is named once. -/
theorem namedOnce_iff_first :
    timesNamed 1 .drivers (20 * DAY_MS + 1 * HOUR_MS - 7 * DAY_MS) (20 * DAY_MS + 1 * HOUR_MS)
        (sweeps 7 (fun _ => twoMenus) hourly fun _ => none) = 1 ∧
      Xor (∃ t ∈ hourly, FirstOnDay 7 (fun _ => twoMenus) 1 hourly (20 * DAY_MS + 1 * HOUR_MS) t)
        (∃ t ∈ hourly,
          FirstDayBefore 7 (fun _ => twoMenus) 1 hourly (20 * DAY_MS + 1 * HOUR_MS) t) := by
  have honce : timesNamed 1 .drivers (20 * DAY_MS + 1 * HOUR_MS - 7 * DAY_MS)
      (20 * DAY_MS + 1 * HOUR_MS) (sweeps 7 (fun _ => twoMenus) hourly fun _ => none) = 1 := by
    decide +kernel
  refine ⟨honce, (namedOnce_iff 7 (fun _ => twoMenus) 1 .drivers hourly _ hourly_sorted
    fun t ht hfrom huntil => ?_).mp honce⟩
  refine endsAt_twoMenus (by decide) (by decide) ?_ huntil
  simp only [DAY_MS, HOUR_MS] at hfrom
  omega

/-- **A menu that closes later on the same day is never named**: the key of that day is set by the notice of
the first one, sent before this one was within the reminder days. -/
theorem not_namedOnce :
    hourly.IsChain (fun s t => s < t ∧ t ≤ s + HOUR_MS) ∧
      hourly.head? = some (12 * DAY_MS) ∧ hourly.getLast? = some (21 * DAY_MS) ∧
      (∀ t, 20 * DAY_MS + 23 * HOUR_MS - 7 * DAY_MS ≤ t → t < 20 * DAY_MS + 23 * HOUR_MS →
        EndsAt twoMenus t 1 .trips (20 * DAY_MS + 23 * HOUR_MS) ∧ isOrdinary twoMenus 1 = true) ∧
      timesNamed 1 .trips (20 * DAY_MS + 23 * HOUR_MS - 7 * DAY_MS) (20 * DAY_MS + 23 * HOUR_MS)
        (sweeps 7 (fun _ => twoMenus) hourly fun _ => none) = 0 := by
  refine ⟨by decide +kernel, by decide +kernel, by decide +kernel, fun t hfrom huntil => ?_,
    by decide +kernel⟩
  refine endsAt_twoMenus (by decide) (by decide) ?_ huntil
  simp only [DAY_MS, HOUR_MS] at hfrom
  omega

end TransportBackend.PlanNotices
