import TransportBackend.KeyedTable
import TransportBackend.PriceTexts

/-!
# A user's alert filters

A user may save several filters and has at most one active.  The rule stands three times: the service
switches the others off, the table's partial unique index refuses a second active row, and the
column's default makes a row active when nothing is said.

* `Filters`: a table that keeps its unique index and the bounds of its columns;
* `Filters.store`, `Filters.deactivateOthers`: the two statements of a saving;
* `create`, `update`, `remove`: `CargoAlertFilterService`;
* `createKeeps_iff`: a new filter replaces the active one exactly when the caller says that it is
  active, or there is none to replace.
-/

namespace TransportBackend.AlertFilters

open TransportBackend.KeyedTable
open TransportBackend.PriceTexts

/-! ### The table -/

structure CargoAlertFilter where
  id : ℕ
  userId : ℕ
  label : Option String
  origins : List String
  destinations : List String
  cargoTypes : List String
  vehicleTypes : List String
  companies : List String
  minPrice : Option ℤ
  maxPrice : Option ℤ
  isActive : Bool
  deriving DecidableEq, Repr

/-- The value fits a `bigint` column. -/
def InBigint (n : ℤ) : Prop := -2 ^ 63 ≤ n ∧ n < 2 ^ 63

instance (n : ℤ) : Decidable (InBigint n) := inferInstanceAs (Decidable (_ ∧ _))

/-- The row fits its columns. -/
structure CargoAlertFilter.Fits (row : CargoAlertFilter) : Prop where
  label : ∀ s ∈ row.label, s.length ≤ 150
  minPrice : ∀ n ∈ row.minPrice, InBigint n
  maxPrice : ∀ n ∈ row.maxPrice, InBigint n

instance (row : CargoAlertFilter) : Decidable row.Fits :=
  decidable_of_iff ((∀ s ∈ row.label, s.length ≤ 150) ∧ (∀ n ∈ row.minPrice, InBigint n) ∧
      ∀ n ∈ row.maxPrice, InBigint n)
    ⟨fun h => ⟨h.1, h.2.1, h.2.2⟩, fun h => ⟨h.label, h.minPrice, h.maxPrice⟩⟩

/-- The saved filters: `UQ_CargoAlertFilter_oneActivePerUser` and the columns' bounds hold. -/
structure Filters where
  table : Table CargoAlertFilter.id
  oneActive : ∀ a ∈ table.rows, ∀ b ∈ table.rows, a.userId = b.userId → a.isActive = true →
    b.isActive = true → a = b
  fits : ∀ a ∈ table.rows, a.Fits

def Filters.empty : Filters where
  table := Table.empty
  oneActive := fun _ ha => absurd ha List.not_mem_nil
  fits := fun _ ha => absurd ha List.not_mem_nil

/-- A statement the database refuses. -/
inductive Violation
  | primaryKey
  | column
  | oneActivePerUser
  deriving DecidableEq, Repr

/-- The row written under its id, if it fits and is no second active row of its user. -/
def Filters.store (t : Filters) (row : CargoAlertFilter) : Except Violation Filters :=
  if hfits : row.Fits then
    if hone : ∀ b ∈ t.table.rows, b.id ≠ row.id → b.userId = row.userId → row.isActive = true →
        b.isActive = false then
      .ok {
        table := t.table.put row
        oneActive := by
          intro a ha b hb huser hactive hactive'
          rcases Table.mem_put.mp ha with rfl | ⟨hane, ha'⟩
          · rcases Table.mem_put.mp hb with rfl | ⟨hbne, hb'⟩
            · rfl
            · rw [hone b hb' hbne huser.symm hactive] at hactive'
              cases hactive'
          · rcases Table.mem_put.mp hb with rfl | ⟨hbne, hb'⟩
            · rw [hone a ha' hane huser hactive'] at hactive
              cases hactive
            · exact t.oneActive a ha' b hb' huser hactive hactive'
        fits := by
          intro a ha
          rcases Table.mem_put.mp ha with rfl | ⟨_, ha⟩
          · exact hfits
          · exact t.fits a ha }
    else .error .oneActivePerUser
  else .error .column

/-- What the `UPDATE` makes of one row. -/
def switchedOff (userId : ℕ) (id : Option ℕ) (row : CargoAlertFilter) : CargoAlertFilter :=
  if row.userId = userId ∧ row.isActive = true ∧ some row.id ≠ id then
    { row with isActive := false }
  else row

@[simp] theorem switchedOff_id (userId : ℕ) (id : Option ℕ) (row : CargoAlertFilter) :
    (switchedOff userId id row).id = row.id := by
  unfold switchedOff
  split <;> rfl

@[simp] theorem switchedOff_userId (userId : ℕ) (id : Option ℕ) (row : CargoAlertFilter) :
    (switchedOff userId id row).userId = row.userId := by
  unfold switchedOff
  split <;> rfl

theorem isActive_of_switchedOff {userId : ℕ} {id : Option ℕ} {row : CargoAlertFilter}
    (h : (switchedOff userId id row).isActive = true) : row.isActive = true := by
  unfold switchedOff at h
  split at h
  · cases h
  · exact h

theorem fits_switchedOff {userId : ℕ} {id : Option ℕ} {row : CargoAlertFilter} (h : row.Fits) :
    (switchedOff userId id row).Fits := by
  unfold switchedOff
  split
  · exact ⟨h.label, h.minPrice, h.maxPrice⟩
  · exact h

/-- The user's other active filters switched off. -/
def Filters.deactivateOthers (t : Filters) (userId : ℕ) (id : Option ℕ) : Filters where
  table := t.table.map (switchedOff userId id) (switchedOff_id userId id)
  oneActive := by
    intro a ha b hb huser hactive hactive'
    obtain ⟨a₀, ha₀, rfl⟩ := List.mem_map.mp ha
    obtain ⟨b₀, hb₀, rfl⟩ := List.mem_map.mp hb
    rw [switchedOff_userId, switchedOff_userId] at huser
    rw [t.oneActive a₀ ha₀ b₀ hb₀ huser (isActive_of_switchedOff hactive)
      (isActive_of_switchedOff hactive')]
  fits := by
    intro a ha
    obtain ⟨a₀, ha₀, rfl⟩ := List.mem_map.mp ha
    exact fits_switchedOff (t.fits a₀ ha₀)

def Filters.erase (t : Filters) (id : ℕ) : Filters where
  table := t.table.erase id
  oneActive := fun a ha b hb =>
    t.oneActive a (Table.mem_erase.mp ha).2 b (Table.mem_erase.mp hb).2
  fits := fun a ha => t.fits a (Table.mem_erase.mp ha).2

/-! ### Savings -/

/-- What a caller sends; a field that is absent is `none`. -/
structure CargoAlertFilterInput where
  label : Option (Option String)
  origins : Option (List String)
  destinations : Option (List String)
  cargoTypes : Option (List String)
  vehicleTypes : Option (List String)
  companies : Option (List String)
  minPrice : Option (Option ℤ)
  maxPrice : Option (Option ℤ)
  isActive : Option Bool
  deriving DecidableEq, Repr

/-- An entity not saved yet, with the fields it was given. -/
structure Draft where
  id : Option ℕ
  userId : ℕ
  fields : CargoAlertFilterInput
  deriving DecidableEq, Repr

/-- A row with the given fields replaced. -/
def CargoAlertFilterInput.onto (input : CargoAlertFilterInput) (row : CargoAlertFilter) :
    CargoAlertFilter where
  id := row.id
  userId := row.userId
  label := input.label.getD row.label
  origins := input.origins.getD row.origins
  destinations := input.destinations.getD row.destinations
  cargoTypes := input.cargoTypes.getD row.cargoTypes
  vehicleTypes := input.vehicleTypes.getD row.vehicleTypes
  companies := input.companies.getD row.companies
  minPrice := input.minPrice.getD row.minPrice
  maxPrice := input.maxPrice.getD row.maxPrice
  isActive := input.isActive.getD row.isActive

/-- Every field of a loaded row. -/
def CargoAlertFilter.fields (row : CargoAlertFilter) : CargoAlertFilterInput where
  label := some row.label
  origins := some row.origins
  destinations := some row.destinations
  cargoTypes := some row.cargoTypes
  vehicleTypes := some row.vehicleTypes
  companies := some row.companies
  minPrice := some row.minPrice
  maxPrice := some row.maxPrice
  isActive := some row.isActive

/-- A row of the columns' defaults: empty lists, no bounds, active. -/
def CargoAlertFilter.default (id userId : ℕ) : CargoAlertFilter where
  id := id
  userId := userId
  label := none
  origins := []
  destinations := []
  cargoTypes := []
  vehicleTypes := []
  companies := []
  minPrice := none
  maxPrice := none
  isActive := true

/-- `manager.save`: the row of that id updated, or a new one with `newId` inserted. -/
def Filters.save (t : Filters) (newId : ℕ) (draft : Draft) :
    Except Violation (CargoAlertFilter × Filters) := do
  match draft.id.bind t.table.get with
  | some stored =>
    let row := draft.fields.onto stored
    return (row, ← t.store row)
  | none =>
    let row := draft.fields.onto (.default (draft.id.getD newId) draft.userId)
    if t.table.get row.id ≠ none then throw .primaryKey
    return (row, ← t.store row)

/-- One transaction: a refused statement leaves nothing. -/
def saveExclusive (t : Filters) (newId : ℕ) (draft : Draft) :
    Except Violation (CargoAlertFilter × Filters) :=
  if draft.fields.isActive = some true then
    (t.deactivateOthers draft.userId draft.id).save newId draft
  else t.save newId draft

/-! ### The service -/

inductive FilterError
  | badRequest (message : String)
  | notFound (message : String)
  | database (violation : Violation)
  deriving DecidableEq, Repr

/-- `value.trim()`. -/
def trimmed (s : String) : String := String.ofList (trim s.toList)

/-- `[...new Set(values.map((v) => v.trim()).filter(Boolean))]`. -/
def cleanList (values : List String) : List String :=
  ((values.map trimmed).filter fun v => v ≠ "").eraseDups

/-- A label trimmed; an empty one is none. -/
def cleanLabel (label : Option String) : Option String :=
  (label.map trimmed).filter fun v => v ≠ ""

def clean (input : CargoAlertFilterInput) : CargoAlertFilterInput where
  label := input.label.map cleanLabel
  origins := input.origins.map cleanList
  destinations := input.destinations.map cleanList
  cargoTypes := input.cargoTypes.map cleanList
  vehicleTypes := input.vehicleTypes.map cleanList
  companies := input.companies.map cleanList
  minPrice := input.minPrice
  maxPrice := input.maxPrice
  isActive := input.isActive

/-- Two given bounds stand in order. -/
def InOrder (minPrice maxPrice : Option ℤ) : Prop := ∀ lo ∈ minPrice, ∀ hi ∈ maxPrice, lo ≤ hi

instance (minPrice maxPrice : Option ℤ) : Decidable (InOrder minPrice maxPrice) :=
  inferInstanceAs (Decidable (∀ lo ∈ minPrice, ∀ hi ∈ maxPrice, lo ≤ hi))

def checkPriceRange (fields : CargoAlertFilterInput) : Except FilterError Unit :=
  if InOrder (fields.minPrice.getD none) (fields.maxPrice.getD none) then .ok ()
  else .error (.badRequest "minPrice must not be greater than maxPrice.")

/-- `Object.assign` of the given fields over a loaded row. -/
def assign (row : CargoAlertFilter) (cleaned : CargoAlertFilterInput) : Draft where
  id := some row.id
  userId := row.userId
  fields := (cleaned.onto row).fields

def create (t : Filters) (newId userId : ℕ) (input : CargoAlertFilterInput) :
    Except FilterError (CargoAlertFilter × Filters) := do
  let cleaned := clean input
  checkPriceRange cleaned
  (saveExclusive t newId ⟨none, userId, cleaned⟩).mapError .database

def getOwned (t : Filters) (userId id : ℕ) : Except FilterError CargoAlertFilter :=
  match t.table.get id with
  | some row =>
      if row.userId = userId then .ok row else .error (.notFound "Cargo alert filter not found.")
  | none => .error (.notFound "Cargo alert filter not found.")

def update (t : Filters) (newId userId id : ℕ) (input : CargoAlertFilterInput) :
    Except FilterError (CargoAlertFilter × Filters) := do
  let filter ← getOwned t userId id
  let next := assign filter (clean input)
  checkPriceRange next.fields
  (saveExclusive t newId next).mapError .database

def remove (t : Filters) (userId id : ℕ) : Except FilterError Filters := do
  let filter ← getOwned t userId id
  return t.erase filter.id

/-! ### What a saving does -/

/-- A row that fits is stored if the user has no other active row, or it is not active itself. -/
theorem store_ok {t : Filters} {row : CargoAlertFilter} (hfits : row.Fits)
    (hone : ∀ b ∈ t.table.rows, b.id ≠ row.id → b.userId = row.userId → row.isActive = true →
      b.isActive = false) : ∃ t', t.store row = .ok t' ∧ t'.table = t.table.put row := by
  unfold Filters.store
  rw [dif_pos hfits, dif_pos hone]
  exact ⟨_, rfl, rfl⟩

/-- A second active row is refused. -/
theorem store_refused {t : Filters} {row b : CargoAlertFilter} (hfits : row.Fits)
    (hb : b ∈ t.table.rows) (hne : b.id ≠ row.id) (huser : b.userId = row.userId)
    (hrow : row.isActive = true) (hactive : b.isActive = true) :
    t.store row = .error .oneActivePerUser := by
  unfold Filters.store
  rw [dif_pos hfits, dif_neg]
  intro hone
  rw [hone b hb hne huser hrow] at hactive
  cases hactive

theorem getOwned_ok {t : Filters} {userId id : ℕ} {row : CargoAlertFilter}
    (hrow : t.table.get id = some row) (huser : row.userId = userId) :
    getOwned t userId id = .ok row := by
  simp [getOwned, hrow, huser]

theorem checkPriceRange_ok {fields : CargoAlertFilterInput}
    (h : InOrder (fields.minPrice.getD none) (fields.maxPrice.getD none)) :
    checkPriceRange fields = .ok () := if_pos h

/-- The filter just saved is active, the user's others are not, and nothing else changed. -/
structure Replaces (t t' : Filters) (row : CargoAlertFilter) : Prop where
  saved : t'.table.get row.id = some row
  active : row.isActive = true
  others : ∀ id, id ≠ row.id → t'.table.get id = (t.table.get id).map fun other =>
    if other.userId = row.userId then { other with isActive := false } else other

/-- The filter just saved is not active, and no other changed. -/
structure Leaves (t t' : Filters) (row : CargoAlertFilter) : Prop where
  saved : t'.table.get row.id = some row
  inactive : row.isActive = false
  others : ∀ id, id ≠ row.id → t'.table.get id = t.table.get id

theorem get_deactivateOthers (t : Filters) (userId : ℕ) (id : Option ℕ) (k : ℕ) :
    (t.deactivateOthers userId id).table.get k = (t.table.get k).map (switchedOff userId id) :=
  Table.get_map _ _ (switchedOff_id userId id) _

/-- Switching an inactive filter off changes nothing. -/
theorem switchedOff_of_ne {userId : ℕ} {id : Option ℕ} {row : CargoAlertFilter}
    (h : some row.id ≠ id) : switchedOff userId id row =
      if row.userId = userId then { row with isActive := false } else row := by
  unfold switchedOff
  by_cases huser : row.userId = userId
  · cases hactive : row.isActive with
    | true => simp [huser, h]
    | false =>
        rcases row with ⟨⟩
        simp_all
  · simp [huser]

/-- **The saving of an active filter replaces the others.** -/
theorem replaces_of_put {t t' : Filters} {id : Option ℕ} {row : CargoAlertFilter}
    (hid : id = none ∨ id = some row.id) (hactive : row.isActive = true)
    (ht' : t'.table = (t.deactivateOthers row.userId id).table.put row) : Replaces t t' row where
  saved := by rw [ht', Table.get_put_self]
  active := hactive
  others := by
    intro k hk
    rw [ht', Table.get_put_of_ne hk, get_deactivateOthers]
    cases hget : t.table.get k with
    | none => rfl
    | some other =>
        have hother : some other.id ≠ id := by
          rcases hid with rfl | rfl
          · simp
          · rw [Table.key_of_get hget]
            simpa using hk
        exact congrArg some (switchedOff_of_ne hother)

theorem leaves_of_put {t t' : Filters} {row : CargoAlertFilter} (hinactive : row.isActive = false)
    (ht' : t'.table = t.table.put row) : Leaves t t' row where
  saved := by rw [ht', Table.get_put_self]
  inactive := hinactive
  others := fun k hk => by rw [ht', Table.get_put_of_ne hk]

/-! ### Valid inputs -/

/-- What the request's checks let through. -/
structure CargoAlertFilterInput.Valid (input : CargoAlertFilterInput) : Prop where
  label : ∀ label ∈ input.label, ∀ s ∈ label, s.length ≤ 150
  minPrice : ∀ price ∈ input.minPrice, ∀ n ∈ price, 0 ≤ n ∧ n ≤ 1000000000000
  maxPrice : ∀ price ∈ input.maxPrice, ∀ n ∈ price, 0 ≤ n ∧ n ≤ 1000000000000

theorem length_trimmed_le (s : String) : (trimmed s).length ≤ s.length := by
  have hlist : (trim s.toList).length ≤ s.toList.length := by
    unfold trim
    rw [List.length_reverse]
    calc ((s.toList.dropWhile _).reverse.dropWhile _).length
        ≤ (s.toList.dropWhile _).reverse.length := (List.dropWhile_sublist _).length_le
      _ = (s.toList.dropWhile _).length := List.length_reverse
      _ ≤ s.toList.length := (List.dropWhile_sublist _).length_le
  rw [trimmed, String.length_ofList, ← String.length_toList]
  exact hlist

theorem fits_onto {input : CargoAlertFilterInput} (hvalid : input.Valid) {row : CargoAlertFilter}
    (hrow : row.Fits) : ((clean input).onto row).Fits where
  label := by
    intro s hs
    cases hlabel : input.label with
    | none =>
        rw [CargoAlertFilterInput.onto, clean, hlabel] at hs
        exact hrow.label s hs
    | some label =>
        rw [CargoAlertFilterInput.onto, clean, hlabel] at hs
        obtain ⟨hmem, _⟩ : s ∈ label.map trimmed ∧ s ≠ "" := by
          simpa [cleanLabel, Option.mem_filter_iff] using hs
        obtain ⟨s₀, hs₀, rfl⟩ := Option.mem_map.mp hmem
        exact (length_trimmed_le s₀).trans (hvalid.label label hlabel s₀ hs₀)
  minPrice := by
    intro n hn
    cases hprice : input.minPrice with
    | none =>
        rw [CargoAlertFilterInput.onto, clean, hprice] at hn
        exact hrow.minPrice n hn
    | some price =>
        rw [CargoAlertFilterInput.onto, clean, hprice] at hn
        obtain ⟨hlo, hhi⟩ := hvalid.minPrice price hprice n hn
        exact ⟨by omega, by omega⟩
  maxPrice := by
    intro n hn
    cases hprice : input.maxPrice with
    | none =>
        rw [CargoAlertFilterInput.onto, clean, hprice] at hn
        exact hrow.maxPrice n hn
    | some price =>
        rw [CargoAlertFilterInput.onto, clean, hprice] at hn
        obtain ⟨hlo, hhi⟩ := hvalid.maxPrice price hprice n hn
        exact ⟨by omega, by omega⟩

theorem fits_default (id userId : ℕ) : (CargoAlertFilter.default id userId).Fits where
  label := fun _ hs => by cases hs
  minPrice := fun _ hn => by cases hn
  maxPrice := fun _ hn => by cases hn

/-! ### New filters -/

theorem save_new {t : Filters} {newId userId : ℕ} {fields : CargoAlertFilterInput}
    (hfresh : t.table.get newId = none) :
    t.save newId ⟨none, userId, fields⟩ =
      (t.store (fields.onto (.default newId userId))).map
        fun t' => (fields.onto (.default newId userId), t') := by
  have hid : (fields.onto (.default newId userId)).id = newId := rfl
  simp only [Filters.save, Option.bind_none, Option.getD_none, hid, hfresh, ne_eq, not_true,
    if_false]
  cases t.store (fields.onto (.default newId userId)) <;> rfl

theorem saveExclusive_of_active {t : Filters} {newId : ℕ} {draft : Draft}
    (h : draft.fields.isActive = some true) :
    saveExclusive t newId draft = (t.deactivateOthers draft.userId draft.id).save newId draft :=
  if_pos h

theorem saveExclusive_of_not {t : Filters} {newId : ℕ} {draft : Draft}
    (h : draft.fields.isActive ≠ some true) : saveExclusive t newId draft = t.save newId draft :=
  if_neg h

/-- After the others are switched off, no other filter of the user is active. -/
theorem inactive_after {t : Filters} {userId : ℕ} {id : Option ℕ} {b : CargoAlertFilter}
    (hb : b ∈ (t.deactivateOthers userId id).table.rows) (huser : b.userId = userId)
    (hid : some b.id ≠ id) : b.isActive = false := by
  obtain ⟨b₀, _, rfl⟩ := List.mem_map.mp hb
  rw [switchedOff_userId] at huser
  rw [switchedOff_id] at hid
  unfold switchedOff
  cases hactive : b₀.isActive with
  | true => simp [huser, hid]
  | false => simp [hactive]

/-- With no active filter there is nothing to switch off. -/
theorem deactivateOthers_of_inactive {t : Filters} {userId : ℕ}
    (h : ∀ b ∈ t.table.rows, b.userId = userId → b.isActive = false) (id : Option ℕ) :
    (t.deactivateOthers userId id).table = t.table := by
  have hrows : t.table.rows.map (switchedOff userId id) = t.table.rows := by
    calc t.table.rows.map (switchedOff userId id)
        = t.table.rows.map fun b => b := by
          refine List.map_congr_left fun b hb => ?_
          unfold switchedOff
          rw [if_neg]
          rintro ⟨huser, hactive, _⟩
          rw [h b hb huser] at hactive
          cases hactive
      _ = t.table.rows := List.map_id' _
  unfold Filters.deactivateOthers Table.map
  simp only [hrows]

/-- What a creation is to do: succeed, and put the new filter in the active one's place unless it is
created switched off. -/
def CreateKeeps (t : Filters) (newId userId : ℕ) (input : CargoAlertFilterInput) : Prop :=
  ∃ row t', create t newId userId input = .ok (row, t') ∧ row.id = newId ∧ row.userId = userId ∧
    (input.isActive ≠ some false → Replaces t t' row) ∧
    (input.isActive = some false → Leaves t t' row)

/-- The same of a change of a saved filter, which keeps its state if nothing is said of it. -/
def UpdateKeeps (t : Filters) (newId userId id : ℕ) (input : CargoAlertFilterInput) : Prop :=
  ∃ stored row t', t.table.get id = some stored ∧
    update t newId userId id input = .ok (row, t') ∧ row.id = id ∧ row.userId = userId ∧
    (input.isActive.getD stored.isActive = true → Replaces t t' row) ∧
    (input.isActive.getD stored.isActive = false → Leaves t t' row)

section Create

variable {t : Filters} {newId userId : ℕ} {input : CargoAlertFilterInput}

theorem create_eq (horder : InOrder (input.minPrice.getD none) (input.maxPrice.getD none)) :
    create t newId userId input =
      (saveExclusive t newId ⟨none, userId, clean input⟩).mapError .database := by
  have hrange : checkPriceRange (clean input) = .ok () := checkPriceRange_ok horder
  simp only [create, hrange]
  rfl

theorem create_of_store {t' : Filters} (hfresh : t.table.get newId = none)
    (horder : InOrder (input.minPrice.getD none) (input.maxPrice.getD none))
    (hactive : input.isActive = some true)
    (hstore : (t.deactivateOthers userId none).store ((clean input).onto (.default newId userId)) =
      .ok t') :
    create t newId userId input = .ok ((clean input).onto (.default newId userId), t') := by
  have hnone : (t.deactivateOthers userId none).table.get newId = none := by
    rw [get_deactivateOthers, hfresh]
    rfl
  rw [create_eq horder, saveExclusive_of_active hactive, save_new hnone, hstore]
  rfl

theorem create_of_store' {r : Except Violation Filters} (hfresh : t.table.get newId = none)
    (horder : InOrder (input.minPrice.getD none) (input.maxPrice.getD none))
    (hactive : input.isActive ≠ some true)
    (hstore : t.store ((clean input).onto (.default newId userId)) = r) :
    create t newId userId input =
      (r.map fun t' => ((clean input).onto (.default newId userId), t')).mapError .database := by
  rw [create_eq horder, saveExclusive_of_not hactive, save_new hfresh, hstore]

/-- A filter created as active takes the active one's place. -/
theorem createKeeps_active (hvalid : input.Valid) (hfresh : t.table.get newId = none)
    (horder : InOrder (input.minPrice.getD none) (input.maxPrice.getD none))
    (hactive : input.isActive = some true) : CreateKeeps t newId userId input := by
  have hrow : ((clean input).onto (.default newId userId)).isActive = true := by
    simp [CargoAlertFilterInput.onto, clean, hactive]
  obtain ⟨t', hstore, ht'⟩ := store_ok (t := t.deactivateOthers userId none)
    (fits_onto hvalid (fits_default newId userId))
    fun b hb _ huser _ => inactive_after hb huser (by simp)
  refine ⟨_, t', create_of_store hfresh horder hactive hstore, rfl, rfl, fun _ => ?_, fun hfalse => ?_⟩
  · exact replaces_of_put (.inl rfl) hrow ht'
  · rw [hactive] at hfalse
    cases hfalse

/-- A filter created switched off changes no other. -/
theorem createKeeps_inactive (hvalid : input.Valid) (hfresh : t.table.get newId = none)
    (horder : InOrder (input.minPrice.getD none) (input.maxPrice.getD none))
    (hinactive : input.isActive = some false) : CreateKeeps t newId userId input := by
  have hrow : ((clean input).onto (.default newId userId)).isActive = false := by
    simp [CargoAlertFilterInput.onto, clean, hinactive]
  obtain ⟨t', hstore, ht'⟩ := store_ok (t := t) (fits_onto hvalid (fits_default newId userId))
    fun b _ _ _ hactive => absurd (hrow.symm.trans hactive) (by simp)
  have hcreate := create_of_store' hfresh horder (by simp [hinactive]) hstore
  exact ⟨_, t', hcreate, rfl, rfl, fun hne => absurd hinactive hne, fun _ => leaves_of_put hrow ht'⟩

/-- A filter of which nothing is said is active by the column's default, and stored as long as there
is no active one. -/
theorem createKeeps_default (hvalid : input.Valid) (hfresh : t.table.get newId = none)
    (horder : InOrder (input.minPrice.getD none) (input.maxPrice.getD none))
    (habsent : input.isActive = none) :
    CreateKeeps t newId userId input ↔
      ∀ b ∈ t.table.rows, b.userId = userId → b.isActive = false := by
  have hrow : ((clean input).onto (.default newId userId)).isActive = true := by
    simp [CargoAlertFilterInput.onto, clean, habsent, CargoAlertFilter.default]
  have hfits : ((clean input).onto (.default newId userId)).Fits :=
    fits_onto hvalid (fits_default newId userId)
  constructor
  · rintro ⟨row, t', hcreate, _⟩ b hb huser
    by_contra hactive
    have hid : b.id ≠ newId := by
      intro hbid
      rw [Table.mem_rows, hbid, hfresh] at hb
      cases hb
    have hstore := store_refused hfits hb hid huser hrow (Bool.eq_true_of_not_eq_false hactive)
    rw [create_of_store' hfresh horder (by simp [habsent]) hstore] at hcreate
    cases hcreate
  · intro hnone
    obtain ⟨t', hstore, ht'⟩ := store_ok (t := t) hfits fun b hb _ huser _ => hnone b hb huser
    have hcreate := create_of_store' hfresh horder (by simp [habsent]) hstore
    refine ⟨_, t', hcreate, rfl, rfl, fun _ => ?_, fun hfalse => ?_⟩
    · have hsame := deactivateOthers_of_inactive hnone none
      exact replaces_of_put (.inl rfl) hrow (ht'.trans (congrArg (Table.put · _) hsame.symm))
    · rw [habsent] at hfalse
      cases hfalse

end Create

/-! ### Changes of saved filters -/

theorem save_stored {t : Filters} {id : ℕ} {stored : CargoAlertFilter} (newId : ℕ) (draft : Draft)
    (hid : draft.id = some id) (hstored : t.table.get id = some stored) :
    t.save newId draft =
      (t.store (draft.fields.onto stored)).map fun t' => (draft.fields.onto stored, t') := by
  have hbind : draft.id.bind t.table.get = some stored := by
    rw [hid]
    exact hstored
  simp only [Filters.save, hbind]
  cases t.store (draft.fields.onto stored) <;> rfl

/-- Every field of an entity is given, so what was stored does not matter. -/
theorem fields_onto {row stored : CargoAlertFilter} (hid : stored.id = row.id)
    (huser : stored.userId = row.userId) : row.fields.onto stored = row := by
  cases row
  cases stored
  simp_all [CargoAlertFilterInput.onto, CargoAlertFilter.fields]

section Update

variable {t : Filters} {newId userId id : ℕ} {input : CargoAlertFilterInput}
  {stored : CargoAlertFilter}

theorem update_eq (hstored : t.table.get id = some stored) (huser : stored.userId = userId)
    (horder : InOrder (input.minPrice.getD stored.minPrice)
      (input.maxPrice.getD stored.maxPrice)) :
    update t newId userId id input =
      (saveExclusive t newId (assign stored (clean input))).mapError .database := by
  have hrange : checkPriceRange (assign stored (clean input)).fields = .ok () :=
    checkPriceRange_ok horder
  simp only [update, getOwned_ok hstored huser]
  show (checkPriceRange (assign stored (clean input)).fields >>= fun _ =>
    (saveExclusive t newId (assign stored (clean input))).mapError .database) = _
  rw [hrange]
  rfl

/-- A change that leaves the filter active takes the active one's place. -/
theorem update_active (hvalid : input.Valid) (hstored : t.table.get id = some stored)
    (huser : stored.userId = userId)
    (horder : InOrder (input.minPrice.getD stored.minPrice)
      (input.maxPrice.getD stored.maxPrice))
    (hactive : input.isActive.getD stored.isActive = true) :
    ∃ t', update t newId userId id input = .ok ((clean input).onto stored, t') ∧
      Replaces t t' ((clean input).onto stored) := by
  have hfits : ((clean input).onto stored).Fits :=
    fits_onto hvalid (t.fits stored (Table.mem_of_get hstored))
  have hkey : stored.id = id := Table.key_of_get hstored
  -- The row is not among the others that are switched off.
  have hsame : (t.deactivateOthers stored.userId (some stored.id)).table.get stored.id =
      some stored := by
    rw [get_deactivateOthers, hkey, hstored]
    simp [switchedOff, hkey]
  obtain ⟨t', hstore, ht'⟩ := store_ok
    (t := t.deactivateOthers stored.userId (some stored.id)) hfits
    fun b hb hne huser' _ => inactive_after hb huser' (by simpa using (show b.id ≠ stored.id from hne))
  refine ⟨t', ?_, replaces_of_put (.inr rfl) hactive ht'⟩
  have hdraft : (assign stored (clean input)).fields.isActive = some true := congrArg some hactive
  rw [update_eq hstored huser horder, saveExclusive_of_active hdraft]
  have hsave := save_stored newId (assign stored (clean input)) rfl hsame
  rw [show (assign stored (clean input)).fields.onto stored = (clean input).onto stored from
    fields_onto rfl rfl, hstore] at hsave
  exact congrArg (Except.mapError FilterError.database) hsave

/-- A change that leaves the filter switched off changes no other. -/
theorem update_inactive (hvalid : input.Valid) (hstored : t.table.get id = some stored)
    (huser : stored.userId = userId)
    (horder : InOrder (input.minPrice.getD stored.minPrice)
      (input.maxPrice.getD stored.maxPrice))
    (hinactive : input.isActive.getD stored.isActive = false) :
    ∃ t', update t newId userId id input = .ok ((clean input).onto stored, t') ∧
      Leaves t t' ((clean input).onto stored) := by
  have hfits : ((clean input).onto stored).Fits :=
    fits_onto hvalid (t.fits stored (Table.mem_of_get hstored))
  have hrow : ((clean input).onto stored).isActive = false := hinactive
  obtain ⟨t', hstore, ht'⟩ := store_ok (t := t) hfits
    fun b _ _ _ hactive => absurd (hrow.symm.trans hactive) (by simp)
  refine ⟨t', ?_, leaves_of_put hrow ht'⟩
  have hdraft : (assign stored (clean input)).fields.isActive ≠ some true := by
    show some ((clean input).onto stored).isActive ≠ some true
    simp [hrow]
  rw [update_eq hstored huser horder, saveExclusive_of_not hdraft]
  have hget : t.table.get stored.id = some stored := by rw [Table.key_of_get hstored, hstored]
  have hsave := save_stored newId (assign stored (clean input)) rfl hget
  rw [show (assign stored (clean input)).fields.onto stored = (clean input).onto stored from
    fields_onto rfl rfl, hstore] at hsave
  exact congrArg (Except.mapError FilterError.database) hsave

/-- **A change of a saved filter does what a creation is to do.** -/
theorem updateKeeps (hvalid : input.Valid) (hstored : t.table.get id = some stored)
    (huser : stored.userId = userId)
    (horder : InOrder (input.minPrice.getD stored.minPrice)
      (input.maxPrice.getD stored.maxPrice)) : UpdateKeeps t newId userId id input := by
  have hkey : stored.id = id := Table.key_of_get hstored
  cases hactive : input.isActive.getD stored.isActive with
  | true =>
      obtain ⟨t', hupdate, hreplaces⟩ := update_active hvalid hstored huser horder hactive
      refine ⟨stored, _, t', hstored, hupdate, hkey, huser, fun _ => hreplaces, fun hfalse => ?_⟩
      rw [hactive] at hfalse
      cases hfalse
  | false =>
      obtain ⟨t', hupdate, hleaves⟩ := update_inactive hvalid hstored huser horder hactive
      refine ⟨stored, _, t', hstored, hupdate, hkey, huser, fun htrue => ?_, fun _ => hleaves⟩
      rw [hactive] at htrue
      cases htrue

end Update

/-- **A new filter takes the active one's place exactly when its state is given or there is none to
replace**; a change of a saved filter always does. -/
theorem exclusive_iff (t : Filters) (userId : ℕ) (input : CargoAlertFilterInput)
    (hvalid : input.Valid) :
    (∀ newId, t.table.get newId = none →
      InOrder (input.minPrice.getD none) (input.maxPrice.getD none) →
      (CreateKeeps t newId userId input ↔ input.isActive ≠ none ∨
        ∀ b ∈ t.table.rows, b.userId = userId → b.isActive = false)) ∧
    ∀ newId id stored, t.table.get id = some stored → stored.userId = userId →
      InOrder (input.minPrice.getD stored.minPrice) (input.maxPrice.getD stored.maxPrice) →
      UpdateKeeps t newId userId id input := by
  refine ⟨fun newId hfresh horder => ?_, fun newId id stored hstored huser horder =>
    updateKeeps hvalid hstored huser horder⟩
  cases hactive : input.isActive with
  | none =>
      rw [createKeeps_default hvalid hfresh horder hactive]
      simp
  | some active =>
      refine iff_of_true ?_ (.inl (by simp))
      cases active with
      | true => exact createKeeps_active hvalid hfresh horder hactive
      | false => exact createKeeps_inactive hvalid hfresh horder hactive

/-- A request that gives no field. -/
def blank : CargoAlertFilterInput := ⟨none, none, none, none, none, none, none, none, none⟩

theorem blank_valid (active : Option Bool) :
    CargoAlertFilterInput.Valid { blank with isActive := active } := by
  constructor
  · intro _ h
    cases h
  · intro _ h
    cases h
  · intro _ h
    cases h

theorem inOrder_none : InOrder none none := by
  intro _ h
  cases h

/-- The first filter of a user is saved, then taken over by a second one created as active, or changed
itself. -/
theorem exclusive_iff_second :
    ∃ first t, create Filters.empty 1 7 blank = .ok (first, t) ∧
      CreateKeeps t 2 7 { blank with isActive := some true } ∧
      UpdateKeeps t 2 7 1 { blank with isActive := some false } := by
  have hfirst : CreateKeeps Filters.empty 1 7 blank :=
    ((exclusive_iff Filters.empty 7 blank (blank_valid none)).1 1 rfl inOrder_none).mpr
      (.inr fun b hb => absurd hb List.not_mem_nil)
  obtain ⟨first, t, hcreate, hid, huser, hreplaces, _⟩ := hfirst
  have hnew := hreplaces (by decide)
  have hfresh : t.table.get 2 = none := by
    rw [hnew.others 2 (by omega)]
    rfl
  have hstored : t.table.get 1 = some first := hid ▸ hnew.saved
  have horder : InOrder first.minPrice first.maxPrice := by
    rcases Except.ok.inj hcreate with ⟨⟩
    exact inOrder_none
  have hsecond : CreateKeeps t 2 7 { blank with isActive := some true } :=
    ((exclusive_iff t 7 _ (blank_valid (some true))).1 2 hfresh inOrder_none).mpr (.inl (by decide))
  exact ⟨first, t, hcreate, hsecond,
    (exclusive_iff t 7 _ (blank_valid (some false))).2 2 1 first hstored huser horder⟩

/-- **A second filter of which nothing is said is refused**: the first one is not switched off, and the
default makes the new one active beside it. -/
theorem not_createKeeps :
    ∃ first t, create Filters.empty 1 7 blank = .ok (first, t) ∧
      create t 2 7 blank = .error (.database .oneActivePerUser) ∧ ¬ CreateKeeps t 2 7 blank := by
  have hfirst : CreateKeeps Filters.empty 1 7 blank :=
    (createKeeps_default (blank_valid none) rfl inOrder_none rfl).mpr
      fun b hb => absurd hb List.not_mem_nil
  obtain ⟨first, t, hcreate, hid, huser, hreplaces, _⟩ := hfirst
  have hnew := hreplaces (by decide)
  have hfresh : t.table.get 2 = none := by
    rw [hnew.others 2 (by omega)]
    rfl
  have hmem : first ∈ t.table.rows := Table.mem_rows.mpr hnew.saved
  have hstore : t.store ((clean blank).onto (.default 2 7)) = .error .oneActivePerUser :=
    store_refused (fits_onto (blank_valid none) (fits_default 2 7)) hmem
      (by rw [hid]; decide) huser rfl hnew.active
  have hrefused : create t 2 7 blank = .error (.database .oneActivePerUser) :=
    create_of_store' hfresh
      (show InOrder (blank.minPrice.getD none) (blank.maxPrice.getD none) from inOrder_none)
      (by decide) hstore
  refine ⟨first, t, hcreate, hrefused, ?_⟩
  rintro ⟨row, t', hcreated, _⟩
  rw [hrefused] at hcreated
  cases hcreated

end TransportBackend.AlertFilters
