import TransportBackend.Binary64

/-!
# The pure rules of a trip's fare

`domain/helper/tripFare.ts` and the storage half of `TripFareService`: reading what the company
typed, the total, whether a delivered fare changed, the broker's share, and the way a fare goes to
its row and back.  Amounts are JavaScript numbers, so they are rationals rounded by `binary64`; the
row keeps whole numbers (`bigint`) and hundredths (`numeric(8, 2)`).

* `readTripFare_valid` — whatever was typed, an accepted fare is well formed;
* `TripFare.view_store` — **a well-formed fare survives its row**: `String` and `toFixed(2)` on the
  way in, `Number` on the way out, lose nothing.
-/

namespace TransportBackend.TripFareRules

open TransportBackend.Binary64

/-! ### Enumerations -/

/-- `TripFareStage`. -/
inductive TripFareStage where
  | agreed
  | delivered
  deriving DecidableEq, Repr

/-- `FareBasis`: one amount for the whole truck, or an amount per ton. -/
inductive FareBasis where
  | total
  | perTon
  deriving DecidableEq, Repr

/-- `FareCurrency`. -/
inductive FareCurrency where
  | toman
  | dollar
  | euro
  | dirham
  | lira
  deriving DecidableEq, Repr

/-- `FareChangeReason`. -/
inductive FareChangeReason where
  | shortage
  | waiting
  | overweight
  | extraCost
  | discount
  | weight
  | other
  deriving DecidableEq, Repr

/-- `BrokerPayModel`. -/
inductive BrokerPayModel where
  | commission
  | margin
  deriving DecidableEq, Repr

/-! ### What the company typed -/

/-- A field of an untyped body: left out (or null), not one of the known values, or one of them. -/
inductive Given (α : Type) where
  | absent
  | invalid
  | value (a : α)
  deriving DecidableEq, Repr

/-- `TripFareInput` as it arrives.  A number is `none` when `Number(...)` of it is not finite; an
empty `changeReason` counts as absent, as every use of it in the source does. -/
structure TripFareInput where
  basis : Given FareBasis
  rate : Option ℚ
  weightTons : Option ℚ
  currency : Given FareCurrency
  changeReason : Given FareChangeReason
  note : Option String
  deriving DecidableEq, Repr

/-- `TripFareValues`: one stage's values once read. -/
structure TripFareValues where
  basis : FareBasis
  rate : ℚ
  weightTons : ℚ
  currency : FareCurrency
  total : ℚ
  changeReason : Option FareChangeReason
  note : Option String
  deriving DecidableEq, Repr

/-- `MAX_WEIGHT_TONS`. -/
def maxWeightTons : ℚ := 200

/-- `MAX_NOTE`, in UTF-16 units. -/
def maxNote : ℕ := 300

/-- The characters `\s` stands for in a JavaScript pattern. -/
def isJsSpace (c : Char) : Bool :=
  c.toNat ∈ [0x09, 0x0A, 0x0B, 0x0C, 0x0D, 0x20, 0xA0, 0x1680, 0x2028, 0x2029, 0x202F, 0x205F,
    0x3000, 0xFEFF] || (0x2000 ≤ c.toNat && c.toNat ≤ 0x200A)

/-- `replace(/\s+/g, ' ')`; the flag says that the previous character was a space. -/
def collapseSpaces : Bool → List Char → List Char
  | _, [] => []
  | inRun, c :: cs =>
      if isJsSpace c then (if inRun then [] else [' ']) ++ collapseSpaces true cs
      else c :: collapseSpaces false cs

/-- `slice(0, n)`, counted in UTF-16 units. -/
def sliceUtf16 : ℕ → List Char → List Char
  | _, [] => []
  | n, c :: cs =>
      let size := if c.toNat < 0x10000 then 1 else 2
      if size ≤ n then c :: sliceUtf16 (n - size) cs else []

/-- `note?.replace(/\s+/g, ' ').trim().slice(0, MAX_NOTE) || null`. -/
def readNote (note : Option String) : Option String :=
  note.bind fun text =>
    let collapsed := collapseSpaces false text.toList
    let trimmed := ((collapsed.dropWhile isJsSpace).reverse.dropWhile isJsSpace).reverse
    let cut := sliceUtf16 maxNote trimmed
    if cut.isEmpty then none else some (String.ofList cut)

/-- The whole fare: the amount itself, or the per-ton fare times the weight, whole. -/
def fareTotal (basis : FareBasis) (rate weightTons : ℚ) : ℚ :=
  match basis with
  | .perTon => mathRound (binary64 (rate * weightTons))
  | .total => rate

/-- `Math.round(x * 100) / 100`. -/
def roundHundredths (x : ℚ) : ℚ := binary64 (mathRound (binary64 (x * 100)) / 100)

/-- An optional field: absent is fine, a value outside the enumeration is refused. -/
def Given.optional {α : Type} (error : String) : Given α → Except String (Option α)
  | .absent => .ok none
  | .invalid => .error error
  | .value a => .ok (some a)

def rateError : String := "مبلغ کرایه را با عدد وارد کنید."

def weightError : String :=
  "وزن بار را وارد کنید (بیشتر از صفر و تا ۲۰۰ تن، یعنی ۲۰۰٬۰۰۰ کیلوگرم)."

/-- A stage's values checked: what is stored, or the reason they are refused. -/
def readTripFare (input : Option TripFareInput) : Except String TripFareValues := do
  let some input := input | throw "کرایه و وزن را وارد کنید."
  let .value basis := input.basis | throw "نوع کرایه را انتخاب کنید: دربست یا تنی."
  let some rate := input.rate | throw rateError
  if ¬isSafeInteger rate ∨ rate ≤ 0 then throw rateError
  let some weightTons := input.weightTons.map roundHundredths | throw weightError
  if weightTons ≤ 0 ∨ weightTons > maxWeightTons then throw weightError
  let currency ← input.currency.optional "واحد پول معتبر نیست."
  let changeReason ← input.changeReason.optional "دلیل تغییر معتبر نیست."
  let total := fareTotal basis rate weightTons
  if ¬isSafeInteger total then throw "مبلغ کرایه بیش از حد بزرگ است."
  return { basis, rate, weightTons, currency := currency.getD .toman, total, changeReason
           note := readNote input.note }

/-- Whether the delivered values changed anything that matters for the money. -/
def fareChanged (agreed delivered : TripFareValues) : Bool :=
  agreed.total ≠ delivered.total || agreed.currency ≠ delivered.currency ||
    agreed.weightTons ≠ delivered.weightTons

theorem fareChanged_iff {agreed delivered : TripFareValues} :
    fareChanged agreed delivered = true ↔
      agreed.total ≠ delivered.total ∨ agreed.currency ≠ delivered.currency ∨
        agreed.weightTons ≠ delivered.weightTons := by
  simp [fareChanged, or_assoc]

/-! ### Well-formed fares -/

/-- The values `readTripFare` lets through: safe whole amounts, a weight of at most 200 tons in
whole hundredths, and the total worked out from them. -/
structure TripFareValues.Valid (v : TripFareValues) : Prop where
  rate : ∃ n : ℕ, v.rate = n ∧ n ≤ maxSafeInteger
  total : ∃ n : ℤ, v.total = n ∧ |n| ≤ maxSafeInteger
  weight : ∃ k : ℕ, v.weightTons = binary64 (k / 100) ∧ k ≤ 2 ^ 50
  total_eq : v.total = fareTotal v.basis v.rate v.weightTons

theorem isSafeInteger_iff {q : ℚ} :
    isSafeInteger q = true ↔ ∃ n : ℤ, q = n ∧ |n| ≤ maxSafeInteger := by
  simp only [isSafeInteger, decide_eq_true_eq]
  constructor
  · rintro ⟨hden, hle⟩
    have hq : q = (q.num : ℚ) := (Rat.coe_int_num_of_den_eq_one hden).symm
    refine ⟨q.num, hq, ?_⟩
    rw [hq] at hle
    exact_mod_cast hle
  · rintro ⟨n, rfl, hle⟩
    exact ⟨Rat.den_intCast n, by exact_mod_cast hle⟩

/-- A positive weight of at most 200 tons is a natural number of hundredths. -/
theorem hundredths_of_weight {k : ℤ} (hpos : ¬binary64 ((k : ℚ) / 100) ≤ 0)
    (hle : ¬binary64 ((k : ℚ) / 100) > maxWeightTons) : ∃ n : ℕ, k = n ∧ n ≤ 2 ^ 50 := by
  have hk : 0 < k := by
    by_contra h
    refine hpos (binary64_nonpos (div_nonpos_of_nonpos_of_nonneg ?_ (by norm_num)))
    exact_mod_cast not_lt.mp h
  have hkq : (0 : ℚ) < k := by exact_mod_cast hk
  have herr := abs_le.mp (abs_binary64_sub_le ((k : ℚ) / 100) (by positivity))
  have hbound : binary64 ((k : ℚ) / 100) ≤ 200 := not_lt.mp hle
  have hsmall : (k : ℚ) / 100 / 2 ^ 53 ≤ (k : ℚ) / 100 / 2 := by
    gcongr
    norm_num
  have hkb : (k : ℚ) ≤ 2 ^ 50 := by linarith [herr.1]
  obtain ⟨n, rfl⟩ := Int.eq_ofNat_of_zero_le hk.le
  exact ⟨n, rfl, by exact_mod_cast hkb⟩

/-- What `readTripFare` asks of an input, and what it makes of it. -/
structure Accepted (input : TripFareInput) (v : TripFareValues) : Prop where
  basis : input.basis = .value v.basis
  rate : input.rate = some v.rate
  safeRate : isSafeInteger v.rate = true
  positiveRate : 0 < v.rate
  weight : input.weightTons.map roundHundredths = some v.weightTons
  positiveWeight : 0 < v.weightTons
  weight_le : v.weightTons ≤ maxWeightTons
  currency : ∃ c, input.currency.optional "واحد پول معتبر نیست." = .ok c ∧ v.currency = c.getD .toman
  changeReason : input.changeReason.optional "دلیل تغییر معتبر نیست." = .ok v.changeReason
  total : v.total = fareTotal v.basis v.rate v.weightTons
  safeTotal : isSafeInteger v.total = true
  note : v.note = readNote input.note

/-- **What is accepted, and as what.** -/
theorem readTripFare_iff {input : TripFareInput} {v : TripFareValues} :
    readTripFare (some input) = .ok v ↔ Accepted input v := by
  constructor
  · intro h
    simp only [readTripFare] at h
    split at h
    case h_2 => cases h
    rename_i basis hbasis
    split at h
    case h_2 => cases h
    rename_i rate hrate
    split_ifs at h with hsafe
    case pos => cases h
    rw [not_or, Decidable.not_not, not_le] at hsafe
    split at h
    case h_2 => cases h
    rename_i weightTons hweight
    by_cases hw : weightTons ≤ 0 ∨ weightTons > maxWeightTons
    · rw [if_pos hw] at h
      cases h
    rw [if_neg hw] at h
    rw [not_or, not_le, not_lt] at hw
    cases hcur : input.currency.optional "واحد پول معتبر نیست." with
    | error e => rw [hcur] at h; cases h
    | ok currency =>
    cases hreason : input.changeReason.optional "دلیل تغییر معتبر نیست." with
    | error e => rw [hcur, hreason] at h; cases h
    | ok changeReason =>
    simp only [hcur, hreason, bind, Except.bind] at h
    split_ifs at h with htotal
    cases h
    exact ⟨hbasis, hrate, hsafe.1, hsafe.2, hweight, hw.1, hw.2, ⟨currency, hcur, rfl⟩, hreason, rfl, htotal, rfl⟩
  · intro h
    obtain ⟨c, hc, hcurrency⟩ := h.currency
    have hrate : ¬(¬isSafeInteger v.rate = true ∨ v.rate ≤ 0) := by simp [h.safeRate, h.positiveRate]
    have hweight : ¬(v.weightTons ≤ 0 ∨ v.weightTons > maxWeightTons) := by
      simp [h.positiveWeight, h.weight_le]
    have htotal : ¬¬isSafeInteger (fareTotal v.basis v.rate v.weightTons) = true := by
      simp [← h.total, h.safeTotal]
    simp only [readTripFare, h.basis, h.rate, h.weight, hc, h.changeReason, bind, Except.bind]
    rw [if_neg hrate]
    dsimp only [pure, Except.pure]
    rw [if_neg hweight]
    rw [if_neg htotal, ← h.total, ← hcurrency, ← h.note]

/-- **Whatever was typed, an accepted fare is well formed.** -/
theorem readTripFare_valid {input : Option TripFareInput} {v : TripFareValues}
    (h : readTripFare input = .ok v) : v.Valid := by
  cases input with
  | none => cases h
  | some input =>
      have haccepted := readTripFare_iff.mp h
      refine ⟨?_, isSafeInteger_iff.mp haccepted.safeTotal, ?_, haccepted.total⟩
      · obtain ⟨n, hn, hsafe⟩ := isSafeInteger_iff.mp haccepted.safeRate
        have hpos : 0 < n := by
          have hpositive := haccepted.positiveRate
          rw [hn] at hpositive
          exact_mod_cast hpositive
        rw [abs_of_pos hpos] at hsafe
        obtain ⟨m, rfl⟩ := Int.eq_ofNat_of_zero_le hpos.le
        exact ⟨m, hn, by exact_mod_cast hsafe⟩
      · obtain ⟨x, _, hx⟩ := Option.map_eq_some_iff.mp haccepted.weight
        have hpos := haccepted.positiveWeight
        have hle := haccepted.weight_le
        rw [← hx, roundHundredths] at hpos hle ⊢
        obtain ⟨n, hn, hbound⟩ := hundredths_of_weight (not_le.mpr hpos) (not_lt.mpr hle)
        exact ⟨n, by rw [hn]; simp, hbound⟩

/-- A number less than a half away from a whole one is rounded to it. -/
theorem mathRound_of_near {q : ℚ} {n : ℤ} (h : |q - n| < 1 / 2) : mathRound q = n := by
  have hbounds := abs_lt.mp h
  rw [mathRound, Int.floor_eq_iff]
  constructor <;> linarith [hbounds.1, hbounds.2]

/-- **Whole hundredths stay as they are.** -/
theorem roundHundredths_hundredths {k : ℕ} (hk : k ≤ 2 ^ 50) :
    roundHundredths (binary64 ((k : ℚ) / 100)) = binary64 ((k : ℚ) / 100) := by
  have hround : mathRound (binary64 (binary64 ((k : ℚ) / 100) * 100)) = (k : ℤ) := by
    rcases Nat.eq_zero_or_pos k with rfl | hpos
    · norm_num [binary64, roundHalfEven, mathRound]
    have hkq : (0 : ℚ) < k := by exact_mod_cast hpos
    have hkle : (k : ℚ) ≤ 2 ^ 50 := by exact_mod_cast hk
    have herr := abs_le.mp (abs_binary64_sub_le ((k : ℚ) / 100) (by positivity))
    have hpow : (0 : ℚ) < 2 ^ 53 := by positivity
    have hsmall : (k : ℚ) / 100 / 2 ^ 53 ≤ 1 / 800 := by
      rw [div_div, div_le_div_iff₀ (by positivity) (by norm_num)]
      linarith
    have hbig : (1 : ℚ) / 100 ≤ (k : ℚ) / 100 := by
      have hone : (1 : ℚ) ≤ k := by exact_mod_cast hpos
      linarith
    have hproduct : 0 < binary64 ((k : ℚ) / 100) * 100 := by linarith [herr.1]
    have herr' := abs_le.mp (abs_binary64_sub_le (binary64 ((k : ℚ) / 100) * 100) hproduct)
    have hsmall' : binary64 ((k : ℚ) / 100) * 100 / 2 ^ 53 ≤ 1 / 4 := by
      rw [div_le_iff₀ hpow]
      linarith [herr.2]
    refine mathRound_of_near (abs_lt.mpr ⟨?_, ?_⟩)
    · push_cast
      linarith [herr.1, herr'.1]
    · push_cast
      linarith [herr.2, herr'.2]
  rw [roundHundredths, hround]
  simp

/-! ### The row -/

/-- A row of `TripFare`: whole amounts (`bigint`) and hundredths of a ton (`numeric(8, 2)`). -/
structure TripFare where
  requestId : ℕ
  stage : TripFareStage
  basis : FareBasis
  rate : ℤ
  weightTons : ℤ
  total : ℤ
  currency : FareCurrency
  changeReason : Option FareChangeReason
  note : Option String
  enteredByUserId : Option ℕ
  deriving DecidableEq, Repr

/-- The unique index `UQ_TripFare_request_stage`. -/
def TripFare.key (row : TripFare) : ℕ × TripFareStage := (row.requestId, row.stage)

/-- The columns `TripFareService.upsert` assigns: `String(rate)`, `weightTons.toFixed(2)`,
`String(total)` and the rest as given. -/
def TripFare.store (requestId : ℕ) (stage : TripFareStage) (values : TripFareValues)
    (userId : ℕ) : TripFare where
  requestId := requestId
  stage := stage
  basis := values.basis
  rate := values.rate.num
  weightTons := toFixed2 values.weightTons
  total := values.total.num
  currency := values.currency
  changeReason := values.changeReason
  note := values.note
  enteredByUserId := some userId

/-- `TripFareService.view`: the row as numbers again. -/
def TripFare.view (row : TripFare) : TripFareValues where
  basis := row.basis
  rate := binary64 row.rate
  weightTons := binary64 (row.weightTons / 100)
  currency := row.currency
  total := binary64 row.total
  changeReason := row.changeReason
  note := row.note

theorem binary64_intCast (n : ℤ) (hn : |n| ≤ maxSafeInteger) (hpos : 0 ≤ n) :
    binary64 (n : ℚ) = n := by
  obtain ⟨m, rfl⟩ := Int.eq_ofNat_of_zero_le hpos
  have hm : m ≤ 2 ^ 53 := by
    rw [abs_of_nonneg hpos] at hn
    simp only [maxSafeInteger] at hn
    omega
  exact_mod_cast binary64_natCast m hm

theorem TripFareValues.Valid.total_nonneg {v : TripFareValues} (hv : v.Valid) : 0 ≤ v.total := by
  obtain ⟨n, hn, _⟩ := hv.rate
  obtain ⟨k, hk, _⟩ := hv.weight
  rw [hv.total_eq, hn, hk]
  cases v.basis with
  | total => simp [fareTotal]
  | perTon =>
      have hw : 0 ≤ binary64 ((k : ℚ) / 100) := binary64_nonneg (by positivity)
      have hp : 0 ≤ binary64 ((n : ℚ) * binary64 ((k : ℚ) / 100)) :=
        binary64_nonneg (mul_nonneg (by positivity) hw)
      have : (0 : ℤ) ≤ mathRound (binary64 ((n : ℚ) * binary64 ((k : ℚ) / 100))) :=
        Int.floor_nonneg.mpr (by linarith)
      rw [fareTotal]
      exact_mod_cast this

/-- **A well-formed fare survives its row.** -/
theorem TripFare.view_store {v : TripFareValues} (hv : v.Valid) (requestId : ℕ)
    (stage : TripFareStage) (userId : ℕ) : (TripFare.store requestId stage v userId).view = v := by
  obtain ⟨n, hn, hnsafe⟩ := hv.rate
  obtain ⟨t, ht, htsafe⟩ := hv.total
  obtain ⟨k, hk, hkle⟩ := hv.weight
  have hrate : binary64 ((v.rate.num : ℤ) : ℚ) = v.rate := by
    rw [hn, Rat.num_natCast]
    exact_mod_cast binary64_natCast n (hnsafe.trans (Nat.sub_le _ _))
  have htotal : binary64 ((v.total.num : ℤ) : ℚ) = v.total := by
    have h0 := hv.total_nonneg
    rw [ht] at h0 ⊢
    rw [Rat.num_intCast]
    exact binary64_intCast t htsafe (by exact_mod_cast h0)
  have hweight : binary64 ((toFixed2 v.weightTons : ℚ) / 100) = v.weightTons := by
    rw [hk, toFixed2_hundredths k hkle]
    simp
  cases v
  simp only [TripFare.store, TripFare.view] at hrate htotal hweight ⊢
  simp only [hrate, htotal, hweight]

/-! ### The broker's share -/

/-- What `brokerEarning` answers. -/
structure BrokerEarning where
  commission : Option ℤ
  margin : Option ℚ
  deriving DecidableEq, Repr

/-- `Math.round((companyTotal * percent) / 100)`. -/
def commissionOf (companyTotal percent : ℚ) : ℤ :=
  mathRound (binary64 (binary64 (companyTotal * percent) / 100))

/-- What a broker gets out of a delivered trip, from the fare the company confirmed. -/
def brokerEarning (model : BrokerPayModel) (companyTotal : ℚ) (currency : FareCurrency)
    (driverFare : Option ℚ) (percent : ℚ) : BrokerEarning :=
  match model with
  | .commission =>
      { commission := if currency = .toman then some (commissionOf companyTotal percent) else none
        margin := none }
  | .margin =>
      { commission := none
        margin := if currency = .toman then driverFare.map (binary64 <| companyTotal - ·) else none }

/-- A commission percent of the policy: hundredths of a percent, at most two decimals. -/
def percentNumber (hundredths : ℕ) : ℚ := binary64 (hundredths / 100)

end TransportBackend.TripFareRules
