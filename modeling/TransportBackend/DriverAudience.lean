import TransportBackend.NullLogic
import TransportBackend.SubscriptionStore
import TransportBackend.TripStore

/-!
# The drivers a load is announced to

Who may work is written twice: as the `WHERE` of the query that picks the drivers of a load, and as the
chain of early returns that answers for one user.  Times are milliseconds, and both read one clock.

* `findDriverIds`: `CargoAudienceRepository.findDriverIds`, its joins and its condition;
* `check`: `SubscriptionAccessService.check`;
* `canReceiveAnnouncement`: `DriverProfileService.canReceiveAnnouncement`;
* `check_of_driver`: what the chain comes to for a driver;
* `audience_may_work`: the two agree, and whoever is picked may receive the load.
-/

namespace TransportBackend.DriverAudience

open TransportBackend.KeyedTable
open TransportBackend.NullLogic
open TransportBackend.SubscriptionStore (Subscription SubscriptionBonus latest)
open TransportBackend.TripStore (CargoTripType)

/-! ### Rows -/

inductive RecordStatus
  | active
  | inactive
  deriving DecidableEq, Repr

/-- A row of `User`. -/
structure User where
  id : ℕ
  recordStatus : RecordStatus
  isParentCompany : Bool
  verificationStatus : String
  createdAt : ℤ
  deriving DecidableEq, Repr

/-- A row of `Role`. -/
structure Role where
  id : ℕ
  name : String
  recordStatus : RecordStatus
  deriving DecidableEq, Repr

/-- A row of `UserRole`. -/
structure UserRole where
  userId : ℕ
  roleId : ℕ
  deriving DecidableEq, Repr

/-- A row of `DriverProfile`; an array may be null, and so may its elements. -/
structure DriverProfile where
  userId : ℕ
  tripType : Option CargoTripType
  tripTypes : Option (List (Option CargoTripType))
  companyUserIds : Option (List (Option ℕ))
  deriving DecidableEq, Repr

/-- `SubscriptionPolicy`, its times read. -/
structure SubscriptionPolicy where
  enforced : Bool
  freeUntil : Option ℤ
  driversEnforced : Bool
  driverTrialDays : ℤ
  driverTrialStartedAt : ℤ
  deriving DecidableEq, Repr

/-- The tables. -/
structure Database where
  users : Table User.id
  roles : Table Role.id
  userRoles : List UserRole
  subscriptions : Table Subscription.id
  bonuses : Table SubscriptionBonus.key
  profiles : Table DriverProfile.userId

def DAY_MS : ℤ := 86400000

def DRIVER_ROLE : String := "DRIVER"

/-! ### Kinds of drivers -/

inductive DriverKind
  | domestic
  | international
  deriving DecidableEq, Repr

def DRIVER_KIND_TRIP_TYPES : DriverKind → List CargoTripType
  | .domestic => [.domestic]
  | .international => [.exportLoad, .importLoad]

def driverKindForLoad (tripType : Option CargoTripType) : DriverKind :=
  if tripType = some .exportLoad ∨ tripType = some .importLoad then .international else .domestic

/-- The kinds some given type belongs to; domestic when there is none. -/
def driverKindsOf (tripTypes : List (Option CargoTripType)) : List DriverKind :=
  let kinds := [DriverKind.domestic, .international].filter fun kind =>
    tripTypes.any fun type => type.isSome && driverKindForLoad type = kind
  if kinds.length ≠ 0 then kinds else [.domestic]

/-! ### The query -/

section Query

variable (db : Database)

def isParentCompany (userId : ℕ) : Bool := (db.users.get userId).any User.isParentCompany

/-- The subscription a row of the join brings. -/
def joinsSubscription (user : User) (now : ℤ) (subscription : Subscription) : Truth :=
  and3 (some (subscription.userId = user.id)) <| and3 (some (subscription.status = .active)) <|
    and3 (some (subscription.startAt ≤ now)) (some (now < subscription.expireAt))

/-- An `EXISTS` is true or false. -/
def existsBonus (user : User) (now : ℤ) : Truth :=
  some (db.bonuses.rows.any fun bonus =>
    bonus.userId = user.id && bonus.startAt ≤ now && now < bonus.expireAt)

/-- A running subscription, the free period or a bonus. -/
def subscriptionCondition (rule : SubscriptionPolicy) (user : User)
    (subscription : Option Subscription) (now : ℤ) : Truth :=
  or3 (some subscription.isSome) <|
    or3 (greater ((greatest (some user.createdAt) (some rule.driverTrialStartedAt)).map
      fun start => start + rule.driverTrialDays * DAY_MS) (some now)) <|
    existsBonus db user now

/-- The subscriptions joined to a user's row, and the condition, while the rule is on. -/
def subscriptionRows (rule : SubscriptionPolicy) (user : User) (now : ℤ) :
    List (Option Subscription) :=
  if rule.driversEnforced then
    (leftJoin db.subscriptions.rows (joinsSubscription user now)).filter fun subscription =>
      subscriptionCondition db rule user subscription now = some true
  else [none]

/-- The profile of a user's row, joined when the load's type or publisher is given. -/
def profileRows (user : User) (tripType : Option CargoTripType) (publisherUserId : Option ℕ) :
    List (Option DriverProfile) :=
  if tripType.isSome ∨ publisherUserId.isSome then
    (db.profiles.rows.filter fun profile => profile.userId = user.id).map some
  else [none]

/-- The condition on the profile. -/
def profileCondition (profile : Option DriverProfile) (tripType : Option CargoTripType)
    (publisherUserId : Option ℕ) : Truth :=
  and3
    (match tripType with
      | none => some true
      | some _ => overlaps (profile.bind DriverProfile.tripTypes)
          (DRIVER_KIND_TRIP_TYPES (driverKindForLoad tripType)))
    (match publisherUserId with
      | none => some true
      | some publisher =>
          if isParentCompany db publisher then some true
          else covers (profile.bind DriverProfile.companyUserIds) [publisher])

/-- The driver roles of a user. -/
def driverRoles (user : User) : List Role :=
  (db.userRoles.filter fun userRole => userRole.userId = user.id).flatMap fun userRole =>
    db.roles.rows.filter fun role =>
      role.id = userRole.roleId && role.name = DRIVER_ROLE && role.recordStatus = .active

/-- `SELECT DISTINCT user.id`. -/
def findDriverIds (verificationOn : Bool) (rule : SubscriptionPolicy)
    (tripType : Option CargoTripType) (publisherUserId : Option ℕ) (now : ℤ) : List ℕ :=
  (db.users.rows.flatMap fun user =>
    (driverRoles db user).flatMap fun _ =>
      (subscriptionRows db rule user now).flatMap fun _ =>
        (profileRows db user tripType publisherUserId).flatMap fun profile =>
          if profileCondition db profile tripType publisherUserId = some true ∧
              (verificationOn → user.verificationStatus = "APPROVED") ∧
              user.recordStatus = .active then
            [user.id]
          else []).eraseDups

/-! ### One user's access -/

inductive SubscriptionAccessReason
  | subscribed
  | bonus
  | trial
  | free
  | required
  deriving DecidableEq, Repr

structure SubscriptionAccess where
  allowed : Bool
  reason : SubscriptionAccessReason
  isDriver : Bool
  trialEndsAt : Option ℤ
  expireAt : Option ℤ
  bonusUntil : Option ℤ
  deriving DecidableEq, Repr

/-- The active subscription that ends last. -/
def findActiveByUserId (userId : ℕ) (now : ℤ) : Option Subscription :=
  latest (db.subscriptions.rows.filter fun subscription =>
    subscription.userId = userId && subscription.status = .active &&
      subscription.startAt ≤ now && now < subscription.expireAt)

/-- The end of the bonus the user is in. -/
def activeUntil (userId : ℕ) (now : ℤ) : Option ℤ :=
  maxOf ((db.bonuses.rows.filter fun bonus =>
    bonus.userId = userId && bonus.startAt ≤ now && now < bonus.expireAt).map
      SubscriptionBonus.expireAt)

/-- The roles loaded with a user. -/
def rolesOf (userId : ℕ) : List Role :=
  (db.userRoles.filter fun userRole => userRole.userId = userId).filterMap fun userRole =>
    db.roles.get userRole.roleId

def hasActiveRole (roles : List Role) (name : String) : Bool :=
  roles.any fun role => role.name = name && role.recordStatus = .active

/-- The end of the free period of a driver registered then. -/
def driverTrialEndsAt (rule : SubscriptionPolicy) (registeredAt : ℤ) : ℤ :=
  max registeredAt rule.driverTrialStartedAt + rule.driverTrialDays * DAY_MS

def SubscriptionPolicy.isRequired (policy : SubscriptionPolicy) (now : ℤ) : Bool :=
  policy.enforced && !(policy.freeUntil.any fun freeUntil => now < freeUntil)

def check (policy : SubscriptionPolicy) (userId : ℕ) (now : ℤ) : SubscriptionAccess :=
  let user := db.users.get userId
  let subscription := findActiveByUserId db userId now
  let bonusUntil := activeUntil db userId now
  let roles := if user.isSome then rolesOf db userId else []
  let isDriver := hasActiveRole roles DRIVER_ROLE
  let trialEndsAt := if isDriver then user.map fun u => driverTrialEndsAt policy u.createdAt else none
  let result := fun allowed reason => SubscriptionAccess.mk allowed reason isDriver trialEndsAt
    (subscription.map Subscription.expireAt) bonusUntil
  if subscription.isSome then result true .subscribed
  else if user.any User.isParentCompany then result true .free
  else if hasActiveRole roles "FACTORY" then result true .free
  else if bonusUntil.isSome then result true .bonus
  else if isDriver then
    if ¬ policy.driversEnforced then result true .free
    else if trialEndsAt.any fun endsAt => now < endsAt then result true .trial
    else result false .required
  else if policy.isRequired now then result false .required
  else result true .free

def canReceiveAnnouncement (userId publisherUserId : ℕ) (tripType : CargoTripType) : Bool :=
  let driver := db.profiles.get userId
  let member := isParentCompany db publisherUserId || driver.any fun profile =>
    profile.companyUserIds.any fun ids => some publisherUserId ∈ ids
  driver.isSome && member && driver.any fun profile =>
    driverKindForLoad (some tripType) ∈ driverKindsOf (profile.tripTypes.getD [profile.tripType])

/-! ### What the query finds -/

variable {db} {rule : SubscriptionPolicy} {now : ℤ} {user : User}

theorem joinsSubscription_eq_true {subscription : Subscription} :
    joinsSubscription user now subscription = some true ↔ subscription.userId = user.id ∧
      subscription.status = .active ∧ subscription.startAt ≤ now ∧ now < subscription.expireAt := by
  simp [joinsSubscription, and3_eq_true]

/-- A subscription runs. -/
def Subscribed (db : Database) (userId : ℕ) (now : ℤ) : Prop :=
  ∃ subscription ∈ db.subscriptions.rows, subscription.userId = userId ∧
    subscription.status = .active ∧ subscription.startAt ≤ now ∧ now < subscription.expireAt

/-- A bonus runs. -/
def Rewarded (db : Database) (userId : ℕ) (now : ℤ) : Prop :=
  ∃ bonus ∈ db.bonuses.rows, bonus.userId = userId ∧ bonus.startAt ≤ now ∧ now < bonus.expireAt

/-- **The user may work as a driver.** -/
def MayWork (db : Database) (rule : SubscriptionPolicy) (user : User) (now : ℤ) : Prop :=
  rule.driversEnforced = true → Subscribed db user.id now ∨
    now < driverTrialEndsAt rule user.createdAt ∨ Rewarded db user.id now

theorem existsBonus_eq_true : existsBonus db user now = some true ↔ Rewarded db user.id now := by
  simp [existsBonus, Rewarded, and_assoc]

theorem subscriptionCondition_eq_true {subscription : Option Subscription} :
    subscriptionCondition db rule user subscription now = some true ↔ subscription.isSome = true ∨
      now < driverTrialEndsAt rule user.createdAt ∨ Rewarded db user.id now := by
  simp [subscriptionCondition, or3_eq_true, existsBonus_eq_true, driverTrialEndsAt]

/-- **The query's condition on subscriptions keeps a row of a user exactly when it may work.** -/
theorem subscriptionRows_ne_nil : subscriptionRows db rule user now ≠ [] ↔
    MayWork db rule user now := by
  unfold subscriptionRows MayWork
  cases hrule : rule.driversEnforced with
  | false => simp
  | true =>
      simp only [if_true, true_implies]
      rw [Ne, List.filter_eq_nil_iff]
      simp only [decide_eq_true_eq, subscriptionCondition_eq_true]
      constructor
      · intro h
        obtain ⟨subscription, hmem, hcondition⟩ : ∃ subscription ∈ leftJoin db.subscriptions.rows
            (joinsSubscription user now), subscription.isSome = true ∨
              now < driverTrialEndsAt rule user.createdAt ∨ Rewarded db user.id now := by
          by_contra hnone
          exact h fun subscription hmem hcondition => hnone ⟨subscription, hmem, hcondition⟩
        rcases hcondition with hsome | htrial | hbonus
        · obtain ⟨s, rfl⟩ := Option.isSome_iff_exists.mp hsome
          obtain ⟨hrow, hjoins⟩ := some_mem_leftJoin.mp hmem
          exact .inl ⟨s, hrow, joinsSubscription_eq_true.mp hjoins⟩
        · exact .inr (.inl htrial)
        · exact .inr (.inr hbonus)
      · rintro (⟨s, hrow, hjoins⟩ | hfree) hnone
        · exact hnone (some s)
            (some_mem_leftJoin.mpr ⟨hrow, joinsSubscription_eq_true.mpr hjoins⟩) (.inl rfl)
        · obtain ⟨subscription, hmem⟩ :=
            List.exists_mem_of_ne_nil _ (leftJoin_ne_nil db.subscriptions.rows (joinsSubscription user now))
          exact hnone subscription hmem (.inr hfree)

theorem hasActiveRole_iff {roles : List Role} {name : String} :
    hasActiveRole roles name = true ↔
      ∃ role ∈ roles, role.name = name ∧ role.recordStatus = .active := by
  simp [hasActiveRole]

/-- The roles the query joins are those loaded with the user. -/
theorem mem_driverRoles {role : Role} : role ∈ driverRoles db user ↔
    role ∈ rolesOf db user.id ∧ role.name = DRIVER_ROLE ∧ role.recordStatus = .active := by
  simp only [driverRoles, rolesOf, List.mem_flatMap, List.mem_filterMap, List.mem_filter,
    Bool.and_eq_true, decide_eq_true_eq]
  constructor
  · rintro ⟨userRole, huserRole, hrow, ⟨hid, hname⟩, hactive⟩
    exact ⟨⟨userRole, huserRole, hid ▸ Table.mem_rows.mp hrow⟩, hname, hactive⟩
  · rintro ⟨⟨userRole, huserRole, hget⟩, hname, hactive⟩
    exact ⟨userRole, huserRole, Table.mem_of_get hget, ⟨Table.key_of_get hget, hname⟩, hactive⟩

/-- **Who the query picks**: active drivers that may work, with a profile the load goes to. -/
theorem mem_findDriverIds {tripType : Option CargoTripType} {publisherUserId : Option ℕ} {id : ℕ} :
    id ∈ findDriverIds db false rule tripType publisherUserId now ↔
      ∃ user ∈ db.users.rows, user.id = id ∧ user.recordStatus = .active ∧
        hasActiveRole (rolesOf db user.id) DRIVER_ROLE = true ∧ MayWork db rule user now ∧
        ∃ profile ∈ profileRows db user tripType publisherUserId,
          profileCondition db profile tripType publisherUserId = some true := by
  simp only [findDriverIds, List.mem_eraseDups, List.mem_flatMap, hasActiveRole_iff,
    ← subscriptionRows_ne_nil]
  constructor
  · rintro ⟨user, huser, role, hrole, subscription, hsubscription, profile, hprofile, hid⟩
    split at hid
    · rename_i hcondition
      obtain ⟨hprofileCondition, _, hactive⟩ := hcondition
      obtain ⟨hloaded, hname, hrecord⟩ := mem_driverRoles.mp hrole
      exact ⟨user, huser, (List.mem_singleton.mp hid).symm, hactive, ⟨role, hloaded, hname, hrecord⟩,
        List.ne_nil_of_mem hsubscription, profile, hprofile, hprofileCondition⟩
    · exact absurd hid List.not_mem_nil
  · rintro ⟨user, huser, rfl, hactive, ⟨role, hloaded, hname, hrecord⟩, hsubscriptions, profile,
      hprofile, hcondition⟩
    obtain ⟨subscription, hsubscription⟩ := List.exists_mem_of_ne_nil _ hsubscriptions
    refine ⟨user, huser, role, mem_driverRoles.mpr ⟨hloaded, hname, hrecord⟩, subscription,
      hsubscription, profile, hprofile, ?_⟩
    rw [if_pos ⟨hcondition, fun h => absurd h Bool.false_ne_true, hactive⟩]
    exact List.mem_singleton_self _

/-! ### What the chain of returns comes to -/

theorem latest_isSome (l : List Subscription) : (latest l).isSome = true ↔ l ≠ [] := by
  cases l with
  | nil => simp [latest]
  | cons b bs =>
      rw [latest]
      cases latest bs <;> simp

theorem findActiveByUserId_isSome {userId : ℕ} :
    (findActiveByUserId db userId now).isSome = true ↔ Subscribed db userId now := by
  rw [findActiveByUserId, latest_isSome, Ne, List.filter_eq_nil_iff]
  simp [Subscribed, and_assoc]

theorem activeUntil_isSome {userId : ℕ} :
    (activeUntil db userId now).isSome = true ↔ Rewarded db userId now := by
  rw [Option.isSome_iff_ne_none, activeUntil, Ne, maxOf_eq_none, List.map_eq_nil_iff,
    List.filter_eq_nil_iff]
  simp [Rewarded, and_assoc]

/-- **A user with an active driver role is let in exactly when it may work**, or is let in as a parent
company or a factory. -/
theorem check_allowed (huser : user ∈ db.users.rows)
    (hdriver : hasActiveRole (rolesOf db user.id) DRIVER_ROLE = true) :
    (check db rule user.id now).allowed = true ↔ MayWork db rule user now ∨
      user.isParentCompany = true ∨ hasActiveRole (rolesOf db user.id) "FACTORY" = true := by
  have hget : db.users.get user.id = some user := Table.mem_rows.mp huser
  unfold check MayWork
  simp only [hget, Option.isSome_some, if_true, hdriver, Option.any_some, Option.map_some,
    ← findActiveByUserId_isSome, ← activeUntil_isSome]
  by_cases hsubscribed : (findActiveByUserId db user.id now).isSome = true
  · simp [hsubscribed]
  · by_cases hparent : user.isParentCompany = true
    · simp [hsubscribed, hparent]
    · by_cases hfactory : hasActiveRole (rolesOf db user.id) "FACTORY" = true
      · simp [hsubscribed, hparent, hfactory]
      · by_cases hbonus : (activeUntil db user.id now).isSome = true
        · simp [hsubscribed, hparent, hfactory, hbonus]
        · -- What is left is the rule for drivers.
          cases hrule : rule.driversEnforced with
          | false => simp [hsubscribed, hparent, hfactory, hbonus]
          | true =>
              by_cases htrial : now < driverTrialEndsAt rule user.createdAt
              · simp [hsubscribed, hparent, hfactory, hbonus, htrial]
              · simp [hsubscribed, hparent, hfactory, hbonus, htrial]

/-! ### Members -/

/-- A driver that takes some of the load types of a kind is of that kind. -/
theorem mem_driverKindsOf {tripTypes : List (Option CargoTripType)} {type : CargoTripType}
    (h : some type ∈ tripTypes) : driverKindForLoad (some type) ∈ driverKindsOf tripTypes := by
  have hkind : driverKindForLoad (some type) ∈ [DriverKind.domestic, .international].filter
      fun kind => tripTypes.any fun t => t.isSome && driverKindForLoad t = kind := by
    refine List.mem_filter.mpr ⟨?_, ?_⟩
    · cases driverKindForLoad (some type) <;> simp
    · exact List.any_eq_true.mpr ⟨some type, h, by simp⟩
  unfold driverKindsOf
  rw [if_pos (List.length_pos_of_mem hkind).ne']
  exact hkind

theorem driverKindForLoad_of_mem {kind : DriverKind} {type : CargoTripType}
    (h : type ∈ DRIVER_KIND_TRIP_TYPES kind) : driverKindForLoad (some type) = kind := by
  cases kind <;> cases type <;> revert h <;> decide

/-- **The profile the query joins receives the load.** -/
theorem canReceive_of_profile {tripType : CargoTripType} {publisherUserId : ℕ}
    {profile : Option DriverProfile}
    (hprofile : profile ∈ profileRows db user (some tripType) (some publisherUserId))
    (hcondition : profileCondition db profile (some tripType) (some publisherUserId) = some true) :
    canReceiveAnnouncement db user.id publisherUserId tripType = true := by
  obtain ⟨row, hrow, rfl⟩ : ∃ row ∈ db.profiles.rows.filter (fun row => row.userId = user.id),
      some row = profile := by
    simpa [profileRows] using hprofile
  obtain ⟨hmem, huser⟩ := List.mem_filter.mp hrow
  have hget : db.profiles.get user.id = some row := by
    rw [← of_decide_eq_true huser]
    exact Table.mem_rows.mp hmem
  obtain ⟨htypes, hmember⟩ := and3_eq_true.mp hcondition
  obtain ⟨types, htypes, type, hkind, htype⟩ := overlaps_eq_true.mp htypes
  have hrowTypes : row.tripTypes = some types := htypes
  have hkinds : driverKindForLoad (some tripType) ∈ driverKindsOf types := by
    rw [← driverKindForLoad_of_mem hkind]
    exact mem_driverKindsOf htype
  have hmembers : isParentCompany db publisherUserId = true ∨
      row.companyUserIds.any (fun ids => some publisherUserId ∈ ids) = true := by
    dsimp only at hmember
    split at hmember
    · exact .inl ‹_›
    · obtain ⟨ids, hids, hall⟩ := covers_eq_true.mp hmember
      have hrowIds : row.companyUserIds = some ids := hids
      rw [hrowIds]
      exact .inr (decide_eq_true (hall publisherUserId (List.mem_singleton_self _)))
  simp only [canReceiveAnnouncement, hget, Option.isSome_some, Option.any_some, hrowTypes,
    Option.getD_some, Bool.true_and, Bool.and_eq_true, Bool.or_eq_true, decide_eq_true_eq]
  exact ⟨hmembers, hkinds⟩

end Query

/-- **The bulk audience is the drivers who may work**: for an active driver that is neither a factory nor
a parent company the query's condition and the one-user answer agree, and every driver the query picks
for a load is let in and may receive it. -/
theorem audience_may_work (db : Database) (policy : SubscriptionPolicy) (now : ℤ) :
    (∀ user ∈ db.users.rows, user.recordStatus = .active →
      hasActiveRole (rolesOf db user.id) DRIVER_ROLE = true →
      hasActiveRole (rolesOf db user.id) "FACTORY" = false → user.isParentCompany = false →
      ((subscriptionRows db policy user now ≠ [] ↔ (check db policy user.id now).allowed = true) ∧
        (user.id ∈ findDriverIds db false policy none none now ↔
          (check db policy user.id now).allowed = true))) ∧
    ∀ tripType publisherUserId, ∀ id ∈
      findDriverIds db false policy (some tripType) (some publisherUserId) now,
      (check db policy id now).allowed = true ∧
        canReceiveAnnouncement db id publisherUserId tripType = true := by
  constructor
  · intro user huser hactive hdriver hfactory hparent
    have hcheck : (check db policy user.id now).allowed = true ↔ MayWork db policy user now := by
      rw [check_allowed huser hdriver]
      simp [hfactory, hparent]
    refine ⟨subscriptionRows_ne_nil.trans hcheck.symm, ?_⟩
    rw [mem_findDriverIds, hcheck]
    constructor
    · rintro ⟨user', huser', hid, _, _, hwork, _⟩
      rwa [← Table.eq_of_key huser' huser hid]
    · intro hwork
      exact ⟨user, huser, rfl, hactive, hdriver, hwork, none, by simp [profileRows], rfl⟩
  · intro tripType publisherUserId id hid
    obtain ⟨user, huser, rfl, _, hdriver, hwork, profile, hprofile, hcondition⟩ :=
      mem_findDriverIds.mp hid
    exact ⟨(check_allowed huser hdriver).mpr (.inl hwork), canReceive_of_profile hprofile hcondition⟩

/-- A driver in its free period and a company it has joined. -/
def sampleDatabase : Database where
  users := (Table.empty.put ⟨1, .active, false, "APPROVED", 0⟩).put ⟨2, .active, false, "APPROVED", 0⟩
  roles := Table.empty.put ⟨5, "DRIVER", .active⟩
  userRoles := [⟨1, 5⟩]
  subscriptions := Table.empty
  bonuses := Table.empty
  profiles := Table.empty.put
    ⟨1, some .exportLoad, some [some .exportLoad, some .importLoad], some [some 2]⟩

def samplePolicy : SubscriptionPolicy := ⟨false, none, true, 30, 0⟩

/-- An import load of the company reaches the driver. -/
theorem audience_may_work_member :
    1 ∈ findDriverIds sampleDatabase false samplePolicy (some .importLoad) (some 2) 1000 ∧
      (check sampleDatabase samplePolicy 1 1000).allowed = true ∧
      canReceiveAnnouncement sampleDatabase 1 2 .importLoad = true := by
  have hpicked : 1 ∈ findDriverIds sampleDatabase false samplePolicy (some .importLoad) (some 2)
      1000 := by decide
  exact ⟨hpicked, (audience_may_work sampleDatabase samplePolicy 1000).2 .importLoad 2 1 hpicked⟩

end TransportBackend.DriverAudience
