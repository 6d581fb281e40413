import TransportBackend.PriceWords

/-!
# Two readers of one price

`parseCargoPrice` and `parsePriceToman` read a price in tomans or rials.  Both take the first figure; the
one multiplies it by the largest scale that is written, the other by the scale written first.

* `parseCargoPrice_form`, `parsePriceToman_form`: what each of them reads;
* `agree_iff`: **when they agree**;
* `not_agree`: 800 thousand to 1 million tomans is 800 million to the one, 800 thousand to the other.
-/

namespace TransportBackend.PriceReaders

open TransportBackend.Binary64
open TransportBackend.DoubleRange
open TransportBackend.MoneyTexts
open TransportBackend.PriceForms
open TransportBackend.PriceGroups
open TransportBackend.PriceTexts
open TransportBackend.PriceWords
open TransportBackend.TextPatterns
open TransportBackend.TripFareRules

/-! ### What is written -/

/-- The number of the first figure. -/
def value (p : PriceForm) : WithTop ℚ := numberOf p.figure.figure

/-- The scales in their order: that of the first figure, that of the second. -/
def scaleWords (p : PriceForm) : List Scale :=
  (p.scale.map Prod.snd).toList ++ ((p.range.bind RangeEnd.scale).map Prod.snd).toList

/-- The scale written first, and the largest; one where none is written. -/
def firstScale (p : PriceForm) : ℕ := ((scaleWords p).head?.map Scale.value).getD 1

def largestScale (p : PriceForm) : ℕ := largest (scaleWords p)

/-- The figure by a scale, in tomans. -/
def tomans (p : PriceForm) (scale : ℕ) : WithTop ℚ :=
  if p.unit.map Prod.snd = some .rial then dividedBy (times (value p) scale) 10 else times (value p) scale

/-- Nothing to go by: no number, or a small one with neither unit nor scale. -/
def Unreadable (p : PriceForm) : Prop :=
  value p = ⊤ ∨ value p ≤ 0 ∨ (p.unit = none ∧ scaleWords p = [] ∧ value p < (minBareTomans : WithTop ℚ))

theorem scalesOf_tokens (p : PriceForm) : scalesOf p.tokens = scaleWords p := by
  obtain ⟨_, _, scale, range, unit, _⟩ := p
  cases range with
  | none => cases scale <;> cases unit <;> rfl
  | some range =>
      obtain ⟨_, _, _, scale'⟩ := range
      cases scale <;> cases scale' <;> cases unit <;> rfl

/-! ### Units -/

/-- A pattern occurs in the whole where it is one of the words. -/
theorem occurs_form {p : Pattern} (hp : p ∈ readerPatterns) (width : ℕ → ℕ) (form : PriceForm) :
    occurs p (form.figure.plain ++ render width Item.plain form.tokens) =
      form.tokens.any fun t => holds p t.2 := by
  rw [occurs_append (misses_figure hp form.figure _), occurs_tokens hp]

/-- Of a pattern that neither a scale word nor «تا» holds, only the unit counts. -/
theorem any_tokens {p : Pattern} (hscale : ∀ s, p (Word.scale s).text = false)
    (hto : p Word.upTo.text = false) (form : PriceForm) :
    (form.tokens.any fun t => holds p t.2) = (form.unit.map Prod.snd).any fun u => p (Word.unit u).text := by
  have hone : ∀ entry : Option (ℕ × Scale), ((entry.map scaleToken).toList.any fun t => holds p t.2) = false := by
    rintro (_ | ⟨n, s⟩)
    · rfl
    · show (p (Word.scale s).text || false) = false
      rw [hscale]
      rfl
  have hrange : (form.range.elim [] RangeEnd.tokens).any (fun t => holds p t.2) = false := by
    cases form.range with
    | none => rfl
    | some range =>
        show (p Word.upTo.text || (false || (range.scale.map scaleToken).toList.any fun t => holds p t.2)) = false
        rw [hto, hone]
        rfl
  unfold PriceForm.tokens
  rw [List.any_append, List.any_append, hone, hrange]
  rcases form.unit with _ | ⟨n, u⟩
  · rfl
  · show (false || (false || (p (Word.unit u).text || false))) = p (Word.unit u).text
    rw [Bool.false_or, Bool.false_or, Bool.or_false]

theorem occurs_unit {p : Pattern} (hp : p ∈ readerPatterns) (hscale : ∀ s, p (Word.scale s).text = false)
    (hto : p Word.upTo.text = false) (width : ℕ → ℕ) (form : PriceForm) :
    occurs p (form.figure.plain ++ render width Item.plain form.tokens) =
      (form.unit.map Prod.snd).any fun u => p (Word.unit u).text := by
  rw [occurs_form hp, any_tokens hscale hto]

theorem occurs_rial (width : ℕ → ℕ) (p : PriceForm) :
    occurs (word rial) (p.figure.plain ++ render width Item.plain p.tokens) =
      decide (p.unit.map Prod.snd = some .rial) := by
  rw [occurs_unit (price_mem rial_mem) (fun s => by cases s <;> decide) (by decide)]
  rcases p.unit with _ | ⟨n, _ | _⟩ <;> rfl

theorem occurs_tomanOrRial (width : ℕ → ℕ) (p : PriceForm) :
    occurs tomanOrRial (p.figure.plain ++ render width Item.plain p.tokens) = p.unit.isSome := by
  rw [occurs_unit (price_mem tomanOrRial_mem) (fun s => by cases s <;> decide) (by decide)]
  rcases p.unit with _ | ⟨n, _ | _⟩ <;> rfl

/-- No currency is written. -/
theorem no_currency (width : ℕ → ℕ) (p : PriceForm) :
    firstOf currencies (p.figure.plain ++ render width Item.plain p.tokens) = none := by
  have hall : ∀ entry ∈ currencies, ∀ w : Word, entry.1 w.text = false := by
    intro entry hentry w
    simp only [currencies, List.mem_cons, List.not_mem_nil, or_false] at hentry
    rcases hentry with rfl | rfl | rfl | rfl <;> rcases w with (_ | _ | _) | _ | (_ | _) <;> rfl
  have hnone : currencies.find? (fun entry =>
      occurs entry.1 (p.figure.plain ++ render width Item.plain p.tokens)) = none := by
    refine List.find?_eq_none.mpr fun entry hentry => ?_
    have hmem : entry.1 ∈ pricePatterns := List.mem_append_right _ (List.mem_map_of_mem hentry)
    rw [occurs_unit (price_mem hmem) (fun s => hall entry hentry _) (hall entry hentry _)]
    cases p.unit.map Prod.snd with
    | none => exact Bool.false_ne_true
    | some u =>
        show ¬entry.1 (Word.unit u).text = true
        rw [hall entry hentry]
        exact Bool.false_ne_true
  unfold firstOf
  rw [hnone]
  rfl

/-! ### What is read -/

theorem text_ne_nil (p : PriceForm) : p.text ≠ [] := by
  intro h
  have hfigure := (List.append_eq_nil_iff.mp (List.append_eq_nil_iff.mp h).2).1
  exact figure_ne_nil p.figure hfigure

theorem largest_one {ss : List Scale} (h : largest ss = 1) : ss = [] := by
  rcases ss with _ | ⟨s, ss⟩
  · rfl
  · have hle : s.value ≤ largest (s :: ss) := le_max_left _ _
    cases s <;> simp [Scale.value, h] at hle

/-- **What the reader of the totals reads.** -/
theorem parseCargoPrice_form (p : PriceForm) :
    (Unreadable p → parseCargoPrice p.text = none) ∧
      (¬Unreadable p → parseCargoPrice p.text = some ⟨rounded (tomans p (largestScale p)), .toman⟩) := by
  have hscale : (firstOf scales (render id Item.plain p.tokens)).getD 1 = largestScale p := by
    rw [firstOf_scales, scalesOf_tokens]
    rfl
  have hread : valueAndTail (cleaned p.text) = some (value p, render id Item.plain p.tokens) := by
    unfold valueAndTail
    rw [cleaned_text, firstFigure_tokens]
    rfl
  have heq : parseCargoPrice p.text =
      if value p = ⊤ ∨ value p ≤ 0 then none
      else if p.unit.isSome = false ∧ largestScale p = 1 ∧ value p < (minBareTomans : WithTop ℚ) then none
      else some ⟨rounded (tomans p (largestScale p)), .toman⟩ := by
    unfold parseCargoPrice
    rw [if_neg (text_ne_nil p)]
    dsimp only
    rw [hread]
    dsimp only
    rw [cleaned_text, no_currency, hscale, occurs_tomanOrRial, occurs_rial]
    have hwritten : (decide ((none : Option FareCurrency).getD .toman ≠ .toman) || p.unit.isSome) =
        p.unit.isSome := rfl
    have hrial : ((none : Option FareCurrency).getD .toman = .toman ∧
        decide (p.unit.map Prod.snd = some .rial) = true) ↔ p.unit.map Prod.snd = some .rial :=
      ⟨fun h => of_decide_eq_true h.2, fun h => ⟨rfl, decide_eq_true h⟩⟩
    rw [hwritten]
    unfold tomans
    simp only [hrial]
    rfl
  have hbare : (p.unit.isSome = false ∧ largestScale p = 1 ∧ value p < (minBareTomans : WithTop ℚ)) ↔
      (p.unit = none ∧ scaleWords p = [] ∧ value p < (minBareTomans : WithTop ℚ)) := by
    have hunit : p.unit.isSome = false ↔ p.unit = none := by cases p.unit <;> simp
    have hwords : largestScale p = 1 ↔ scaleWords p = [] :=
      ⟨largest_one, fun h => by unfold largestScale; rw [h]; rfl⟩
    rw [hunit, hwords]
  rw [heq]
  constructor
  · rintro (htop | hzero | hsmall)
    · rw [if_pos (.inl htop)]
    · rw [if_pos (.inr hzero)]
    · rw [if_pos (hbare.mpr hsmall), ite_self]
  · intro hread
    rw [if_neg fun h => hread (h.imp id .inl), if_neg fun h => hread (.inr (.inr (hbare.mp h)))]

/-- A number is the double of itself. -/
theorem times_value (p : PriceForm) : times (value p) 1 = value p := by
  have hnonneg : (0 : ℚ) ≤ (Nat.ofDigitChars 10 p.figure.figure.whole 0 : ℚ) +
      (Nat.ofDigitChars 10 p.figure.figure.fraction 0 : ℚ) / 10 ^ p.figure.figure.fraction.length := by positivity
  cases hvalue : value p with
  | top => rfl
  | coe q =>
      show double (q * 1) = _
      rw [mul_one]
      exact double_double hnonneg hvalue

/-- **What the reader of the filters reads.** -/
theorem parsePriceToman_form {n : Normalizer} (hn : KeepsPrices n) (p : PriceForm) :
    parsePriceToman n p.text =
      if tomans p (firstScale p) = ⊤ ∨ tomans p (firstScale p) ≤ 0 then none
      else finite (rounded (tomans p (firstScale p))) := by
  have hmultiplier : firstMultiplier (render (min 1) Item.plain p.tokens) = (scaleWords p).head?.map Scale.value := by
    rw [firstMultiplier_tokens, scalesOf_tokens]
  unfold parsePriceToman
  rw [if_neg (text_ne_nil p), normalized_text hn]
  dsimp only
  rw [firstFigure_tokens]
  dsimp only
  rw [hmultiplier, occurs_rial]
  unfold tomans firstScale
  cases (scaleWords p).head? with
  | none =>
      have hone : times (value p) ((1 : ℕ) : ℚ) = value p := by rw [Nat.cast_one, times_value]
      simp only [Option.map_none, Option.getD_none, hone, decide_eq_true_eq]
      rfl
  | some s =>
      simp only [Option.map_some, Option.getD_some, decide_eq_true_eq]
      rfl

/-! ### Scales apart -/

/-- A scale that is not the largest is a thousandth of it, or less. -/
theorem firstScale_far {p : PriceForm} (h : largestScale p ≠ firstScale p) :
    1000 * firstScale p ≤ largestScale p := by
  unfold largestScale firstScale at h ⊢
  cases hwords : scaleWords p with
  | nil =>
      rw [hwords] at h
      exact absurd rfl h
  | cons s ss =>
      rw [hwords] at h
      change max s.value (largest ss) ≠ s.value at h
      show 1000 * s.value ≤ max s.value (largest ss)
      have hlater := largest_eq ss
      have hless : s.value < largest ss := by
        by_contra hle
        exact h (max_eq_left (not_lt.mp hle))
      rw [max_eq_right hless.le]
      split_ifs at hlater <;> cases s <;> simp only [Scale.value] at hless ⊢ <;> omega

theorem tiny : (2 : ℚ) ^ (-1075 : ℤ) ≤ 1 / 1000000 := by
  have hle : (2 : ℚ) ^ (-1075 : ℤ) ≤ 2 ^ (-20 : ℤ) := zpow_le_zpow_right₀ (by norm_num) (by norm_num)
  exact hle.trans (by norm_num)

/-- A double is within a quarter, and a millionth. -/
theorem double_between {q d : ℚ} (hq : 0 ≤ q) (h : double q = (d : WithTop ℚ)) :
    3 / 4 * q - 1 / 1000000 ≤ d ∧ d ≤ 5 / 4 * q + 1 / 1000000 := by
  have hnear := abs_le.mp (double_near hq h)
  have hquarter : q / 2 ^ 53 ≤ q / 4 := by gcongr; norm_num
  have htiny := tiny
  constructor <;> linarith [hnear.1, hnear.2]

/-- Doubles of numbers far apart are far apart. -/
theorem double_far {a b x y : ℚ} (ha : 0 ≤ a) (hab : 1000 * a ≤ b) (hx : double a = (x : WithTop ℚ))
    (hy : double b = (y : WithTop ℚ)) : 0 ≤ x ∧ 600 * x ≤ y + 1 / 1000 := by
  have hb : 0 ≤ b := by linarith
  have hleft := double_between ha hx
  have hright := double_between hb hy
  exact ⟨double_nonneg ha hx, by linarith [hleft.2, hright.1]⟩

theorem tenth_far {x y x' y' : ℚ} (hx : 0 ≤ x) (hxy : 600 * x ≤ y + 1 / 1000)
    (hx' : double (x / 10) = (x' : WithTop ℚ)) (hy : 0 ≤ y) (hy' : double (y / 10) = (y' : WithTop ℚ)) :
    0 ≤ x' ∧ 100 * x' ≤ y' + 1 / 10 := by
  have hleft := double_between (by positivity) hx'
  have hright := double_between (by positivity) hy'
  exact ⟨double_nonneg (by positivity) hx', by linarith [hleft.2, hright.1]⟩

/-- By a scale a thousand times as large a price is far larger. -/
theorem tomans_far {p : PriceForm} {q : ℚ} (hvalue : value p = (q : WithTop ℚ)) (hq : 0 ≤ q) {a b : ℕ}
    (hab : 1000 * a ≤ b) {x y : ℚ} (hx : tomans p a = (x : WithTop ℚ)) (hy : tomans p b = (y : WithTop ℚ)) :
    0 ≤ x ∧ 100 * x ≤ y + 1 / 10 := by
  have hscaled : 1000 * (q * a) ≤ q * b := by
    have hcast : (1000 : ℚ) * a ≤ b := by exact_mod_cast hab
    nlinarith
  unfold tomans at hx hy
  rw [hvalue] at hx hy
  split_ifs at hx hy
  · change dividedBy (double (q * a)) 10 = _ at hx
    change dividedBy (double (q * b)) 10 = _ at hy
    cases hxx : double (q * a) with
    | top =>
        rw [hxx] at hx
        cases hx
    | coe x₀ =>
        cases hyy : double (q * b) with
        | top =>
            rw [hyy] at hy
            cases hy
        | coe y₀ =>
            rw [hxx] at hx
            rw [hyy] at hy
            obtain ⟨hx₀, hfar⟩ := double_far (by positivity) hscaled hxx hyy
            exact tenth_far hx₀ hfar hx (double_nonneg (by positivity) hyy) hy
  · obtain ⟨hx₀, hfar⟩ := double_far (by positivity) hscaled hx hy
    exact ⟨hx₀, by linarith⟩

/-- Amounts far apart come to the same whole number only at nothing. -/
theorem mathRound_far {x y : ℚ} (hx : 0 ≤ x) (hfar : 100 * x ≤ y + 1 / 10) :
    mathRound y = mathRound x ↔ y < 1 / 2 := by
  unfold mathRound
  constructor
  · intro heq
    by_contra hge
    have hy := Int.lt_floor_add_one (y + 1 / 2)
    have hxle := Int.floor_le (x + 1 / 2)
    rw [heq] at hy
    rcases lt_or_ge x (1 / 2) with hsmall | hlarge
    · have hzero : ⌊x + 1 / 2⌋ = 0 := Int.floor_eq_iff.mpr ⟨by push_cast; linarith, by push_cast; linarith⟩
      rw [hzero] at hy
      push_cast at hy
      linarith
    · linarith
  · intro hsmall
    have hfloor : ∀ z : ℚ, -1 / 2 ≤ z → z < 1 / 2 → ⌊z + 1 / 2⌋ = 0 := fun z hlow hhigh =>
      Int.floor_eq_iff.mpr ⟨by push_cast; linarith, by push_cast; linarith⟩
    rw [hfloor y (by linarith) hsmall, hfloor x (by linarith) (by linarith)]

/-! ### When they agree -/

/-- The readers agree on a price: what the totals read the filters read, and a scale right after the first
figure is its scale. -/
def Agree (n : Normalizer) (p : PriceForm) : Prop :=
  ∀ price, parseCargoPrice p.text = some price →
    (∃ m : ℤ, parsePriceToman n p.text = some m ∧ price = ⟨(m : WithTop ℤ), .toman⟩) ∧
      ∀ entry ∈ p.scale, price.amount = rounded (tomans p entry.2.value)

theorem firstScale_own {p : PriceForm} {entry : ℕ × Scale} (h : entry ∈ p.scale) :
    firstScale p = entry.2.value := by
  unfold firstScale scaleWords
  rw [Option.mem_def.mp h]
  rfl

theorem readable_value {p : PriceForm} (h : ¬Unreadable p) : ∃ q : ℚ, value p = (q : WithTop ℚ) ∧ 0 < q := by
  unfold Unreadable at h
  cases hvalue : value p with
  | top => exact absurd (.inl hvalue) h
  | coe q =>
      refine ⟨q, rfl, ?_⟩
      by_contra hle
      exact h (.inr (.inl (by rw [hvalue]; exact_mod_cast not_lt.mp hle)))

/-- **The two readers agree** exactly where there is nothing to read, or where the figure by the scale
written first is an amount, and that scale is the largest or the figure by the largest is nothing. -/
theorem agree_iff {n : Normalizer} (hn : KeepsPrices n) (p : PriceForm) :
    Agree n p ↔ Unreadable p ∨
      (tomans p (firstScale p) ≠ ⊤ ∧ 0 < tomans p (firstScale p) ∧
        (largestScale p = firstScale p ∨ tomans p (largestScale p) < ((1 / 2 : ℚ) : WithTop ℚ))) := by
  obtain ⟨hnone, hsome⟩ := parseCargoPrice_form p
  have hfilters := parsePriceToman_form hn p
  by_cases hread : Unreadable p
  · refine ⟨fun _ => .inl hread, fun _ price hprice => ?_⟩
    rw [hnone hread] at hprice
    cases hprice
  obtain ⟨q, hq, hpos⟩ := readable_value hread
  have htotals := hsome hread
  constructor
  · intro hagree
    obtain ⟨⟨m, hm, hprice⟩, _⟩ := hagree _ htotals
    rw [hfilters] at hm
    split_ifs at hm with hbad
    obtain ⟨htop, hzero⟩ := not_or.mp hbad
    refine .inr ⟨htop, not_le.mp hzero, ?_⟩
    by_cases hlargest : largestScale p = firstScale p
    · exact .inl hlargest
    right
    have hamount : rounded (tomans p (largestScale p)) = (m : WithTop ℤ) := congrArg CargoPrice.amount hprice
    cases hx : tomans p (firstScale p) with
    | top => exact absurd hx htop
    | coe x =>
        cases hy : tomans p (largestScale p) with
        | top =>
            rw [hy] at hamount
            cases hamount
        | coe y =>
            obtain ⟨hx₀, hfar⟩ := tomans_far hq hpos.le (firstScale_far hlargest) hx hy
            rw [hx] at hm
            rw [hy] at hamount
            have hfirst : mathRound x = m := Option.some.inj hm
            have hsecond : mathRound y = m := WithTop.coe_inj.mp hamount
            have hsmall := (mathRound_far hx₀ hfar).mp (hsecond.trans hfirst.symm)
            exact_mod_cast hsmall
  · rintro (hbare | ⟨htop, hzero, hscale⟩)
    · exact absurd hbare hread
    intro price hprice
    rw [htotals] at hprice
    obtain rfl := Option.some.inj hprice
    cases hx : tomans p (firstScale p) with
    | top => exact absurd hx htop
    | coe x =>
        have hsame : rounded (tomans p (largestScale p)) = ((mathRound x : ℤ) : WithTop ℤ) := by
          by_cases hlargest : largestScale p = firstScale p
          · rw [hlargest, hx]
            rfl
          have hsmall := hscale.resolve_left hlargest
          cases hy : tomans p (largestScale p) with
          | top =>
              rw [hy] at hsmall
              cases hsmall
          | coe y =>
              obtain ⟨hx₀, hfar⟩ := tomans_far hq hpos.le (firstScale_far hlargest) hx hy
              rw [hy] at hsmall
              have hround := (mathRound_far hx₀ hfar).mpr (by exact_mod_cast hsmall)
              show ((mathRound y : ℤ) : WithTop ℤ) = _
              rw [hround]
        refine ⟨⟨mathRound x, ?_, ?_⟩, fun entry hentry => ?_⟩
        · rw [hfilters, if_neg fun h => h.elim htop (not_le.mpr hzero), hx]
          rfl
        · rw [hsame]
        · show rounded (tomans p (largestScale p)) = _
          rw [hsame, ← firstScale_own hentry, hx]
          rfl

/-- «۸۰۰ هزار تا ۱ میلیون تومان». -/
def hundredsToMillion : PriceForm where
  before := 0
  figure := ⟨['۸', '۰', '۰'], [], none, List.cons_ne_nil _ _, List.all_eq_true.mp (by decide)⟩
  scale := some (1, .thousand)
  range := some ⟨1, 1, ⟨['۱'], [], none, List.cons_ne_nil _ _, List.all_eq_true.mp (by decide)⟩, some (1, .million)⟩
  unit := some (1, .toman)
  after := 0

/-- The normalizer of prices. -/
def plainNormalizer : Normalizer := ⟨id, id⟩

theorem keepsPrices_plain : KeepsPrices plainNormalizer := fun _ _ => ⟨rfl, rfl⟩

theorem agree_iff_hundredsToMillion : KeepsPrices plainNormalizer ∧
    (Agree plainNormalizer hundredsToMillion ↔ Unreadable hundredsToMillion ∨
      (tomans hundredsToMillion (firstScale hundredsToMillion) ≠ ⊤ ∧
        0 < tomans hundredsToMillion (firstScale hundredsToMillion) ∧
        (largestScale hundredsToMillion = firstScale hundredsToMillion ∨
          tomans hundredsToMillion (largestScale hundredsToMillion) < ((1 / 2 : ℚ) : WithTop ℚ)))) :=
  ⟨keepsPrices_plain, agree_iff keepsPrices_plain hundredsToMillion⟩

/-- 800 thousand to 1 million tomans is 800 million to the totals, and 800 thousand to the filters. -/
theorem not_agree : hundredsToMillion.text = "۸۰۰ هزار تا ۱ میلیون تومان".toList ∧
    parseCargoPrice hundredsToMillion.text = some ⟨(800000000 : ℤ), .toman⟩ ∧
    parsePriceToman plainNormalizer hundredsToMillion.text = some 800000 ∧
    ¬Agree plainNormalizer hundredsToMillion := by
  have htotals : parseCargoPrice hundredsToMillion.text = some ⟨(800000000 : ℤ), .toman⟩ := by decide +kernel
  have hfilters : parsePriceToman plainNormalizer hundredsToMillion.text = some 800000 := by decide +kernel
  refine ⟨by decide, htotals, hfilters, fun hagree => ?_⟩
  obtain ⟨⟨m, hm, hprice⟩, _⟩ := hagree _ htotals
  rw [hfilters] at hm
  obtain rfl := Option.some.inj hm
  revert hprice
  decide

end TransportBackend.PriceReaders
