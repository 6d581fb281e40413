import TransportBackend.PriceTexts

/-!
# Amounts that are shown and typed again

What `faNumber`, `moneyText` and `moneyWords` show, read by `readAmount`.

* `readAmount_shown` — **a figure with its unit is read as what was shown**, in every currency;
* `leading` — of an amount in words only the largest group is read (`readAmount_moneyWords`), so
* `readAmount_words_iff` — **an amount in words is read as itself exactly when it has one group**;
* `not_readAmount_words` — 45,500,000 in words is read as 45,000,000.
-/

namespace TransportBackend.MoneyTexts

open TransportBackend.Binary64
open TransportBackend.DoubleRange
open TransportBackend.TextPatterns
open TransportBackend.TripFareRules
open TransportBackend.PriceTexts

/-! ### Digits -/

theorem digit_cases {c : Char} (h : c.isDigit = true) :
    c = '0' ∨ c = '1' ∨ c = '2' ∨ c = '3' ∨ c = '4' ∨ c = '5' ∨ c = '6' ∨ c = '7' ∨ c = '8' ∨ c = '9' := by
  have hrange : 48 ≤ c.toNat ∧ c.toNat ≤ 57 := by
    simp only [Char.isDigit, Bool.and_eq_true, decide_eq_true_eq, ge_iff_le, UInt32.le_iff_toNat_le] at h
    exact h
  have hcode : ∀ d : Char, c.toNat = d.toNat → c = d := fun d hd => Char.toNat_inj.mp hd
  obtain ⟨hlow, hhigh⟩ := hrange
  have hcases : c.toNat = 48 ∨ c.toNat = 49 ∨ c.toNat = 50 ∨ c.toNat = 51 ∨ c.toNat = 52 ∨
      c.toNat = 53 ∨ c.toNat = 54 ∨ c.toNat = 55 ∨ c.toNat = 56 ∨ c.toNat = 57 := by omega
  exact hcases.imp (hcode '0') <| Or.imp (hcode '1') <| Or.imp (hcode '2') <| Or.imp (hcode '3') <|
    Or.imp (hcode '4') <| Or.imp (hcode '5') <| Or.imp (hcode '6') <| Or.imp (hcode '7') <|
      Or.imp (hcode '8') (hcode '9')

theorem latinDigit_persianDigit {c : Char} (h : c.isDigit = true) : latinDigit (persianDigit c) = c := by
  rcases digit_cases h with rfl | rfl | rfl | rfl | rfl | rfl | rfl | rfl | rfl | rfl <;> decide

theorem isDigit_digitsOf {n : ℕ} : ∀ c ∈ digitsOf n, c.isDigit = true := fun _ hc =>
  Nat.isDigit_of_mem_toDigits (by decide) (by decide) hc

theorem digitsOf_ne_nil (n : ℕ) : digitsOf n ≠ [] := Nat.toDigits_ne_nil

/-- The digits that are shown are read again. -/
theorem latin_persian {ds : List Char} (h : ∀ c ∈ ds, c.isDigit = true) : latin (persian ds) = ds := by
  induction ds with
  | nil => rfl
  | cons d ds ih =>
      show latinDigit (persianDigit d) :: latin (persian ds) = _
      rw [latinDigit_persianDigit (h d List.mem_cons_self), ih fun c hc => h c (List.mem_cons_of_mem d hc)]

theorem latin_append (s t : List Char) : latin (s ++ t) = latin s ++ latin t := List.map_append

/-- What is no digit of either kind stays. -/
theorem latin_self {t : List Char} (h : ∀ c ∈ t, latinDigit c = c) : latin t = t := by
  induction t with
  | nil => rfl
  | cons c t ih =>
      show latinDigit c :: latin t = _
      rw [h c List.mem_cons_self, ih fun a ha => h a (List.mem_cons_of_mem c ha)]

theorem numberOf_digitsOf {n : ℕ} (hn : n ≤ 2 ^ 53) :
    numberOf ⟨digitsOf n, []⟩ = ((n : ℚ) : WithTop ℚ) := by
  have hwhole : Nat.ofDigitChars 10 (digitsOf n) 0 = n := Nat.ofDigitChars_ten_toDigits
  unfold numberOf
  rw [hwhole, ← double_natCast n hn, Nat.ofDigitChars_nil]
  simp

/-! ### Groups of three -/

/-- The separators of the groups go, the digits stay. -/
theorem filter_grouped {ds : List Char} (h : ∀ c ∈ ds, c.isDigit = true) (keep : Char → Bool)
    (hkeep : ∀ c : Char, c.isDigit = true → keep c = true) (hsep : keep '٬' = false) :
    (grouped ds).filter keep = ds := by
  induction ds with
  | nil => rfl
  | cons d ds ih =>
      have hd : keep d = true := hkeep d (h d List.mem_cons_self)
      have hds := ih fun c hc => h c (List.mem_cons_of_mem d hc)
      unfold grouped
      split
      · rw [List.filter_cons_of_pos hd, List.filter_cons_of_neg (by rw [hsep]; exact Bool.false_ne_true), hds]
      · rw [List.filter_cons_of_pos hd, hds]

theorem latin_grouped {ds : List Char} (h : ∀ c ∈ ds, c.isDigit = true) :
    latin (persian (grouped ds)) = grouped ds := by
  have hsep : latinDigit (persianDigit '٬') = '٬' := by decide
  induction ds with
  | nil => rfl
  | cons d ds ih =>
      have hd := latinDigit_persianDigit (h d List.mem_cons_self)
      have hds := ih fun c hc => h c (List.mem_cons_of_mem d hc)
      unfold grouped
      split
      · show latinDigit (persianDigit d) :: latinDigit (persianDigit '٬') :: latin (persian (grouped ds)) = _
        rw [hd, hsep, hds]
      · show latinDigit (persianDigit d) :: latin (persian (grouped ds)) = _
        rw [hd, hds]

/-- Whole groups of three begin with three digits. -/
theorem threeDigits_grouped {ds : List Char} (h : ∀ c ∈ ds, c.isDigit = true) (hne : ds ≠ [])
    (hthree : 3 ∣ ds.length) (r : List Char) : threeDigits (grouped ds ++ r) = true := by
  match ds with
  | [] => exact absurd rfl hne
  | [_] => simp at hthree
  | [_, _] => simp at hthree
  | a :: b :: c :: t =>
      have hab : ¬ 3 ∣ (b :: c :: t).length := by
        simp only [List.length_cons] at hthree ⊢
        omega
      have hbc : ¬ 3 ∣ (c :: t).length := by
        simp only [List.length_cons] at hthree ⊢
        omega
      have ha : a.isDigit = true := h a (by simp)
      have hb : b.isDigit = true := h b (by simp)
      have hc : c.isDigit = true := h c (by simp)
      have hgrouped : ∃ u, grouped (a :: b :: c :: t) = a :: b :: c :: u := by
        refine ⟨if t ≠ [] ∧ 3 ∣ t.length then '٬' :: grouped t else grouped t, ?_⟩
        rw [grouped, if_neg fun h => hab h.2, grouped, if_neg fun h => hbc h.2, grouped]
        split <;> rfl
      obtain ⟨u, hu⟩ := hgrouped
      rw [hu]
      show (a.isDigit && b.isDigit && c.isDigit) = true
      rw [ha, hb, hc]
      rfl

/-- No digit is a separator. -/
theorem digit_not_separator {c : Char} (h : c.isDigit = true) :
    (c == '٬' || c == ',' || c == '،') = false := by
  rcases digit_cases h with rfl | rfl | rfl | rfl | rfl | rfl | rfl | rfl | rfl | rfl <;> rfl

theorem withoutSeparators_grouped {ds : List Char} (h : ∀ c ∈ ds, c.isDigit = true) (r : List Char) :
    withoutSeparators (grouped ds ++ r) = ds ++ withoutSeparators r := by
  induction ds with
  | nil => rfl
  | cons d ds ih =>
      have hds : ∀ c ∈ ds, c.isDigit = true := fun c hc => h c (List.mem_cons_of_mem d hc)
      have hd : ∀ t, withoutSeparators (d :: t) = d :: withoutSeparators t := by
        intro t
        have hout := digit_not_separator (h d List.mem_cons_self)
        show (if (d == '٬' || d == ',' || d == '،') && threeDigits t then _ else _) = _
        rw [hout]
        rfl
      unfold grouped
      split
      · rename_i hgroup
        have hthree := threeDigits_grouped hds hgroup.1 hgroup.2 r
        show withoutSeparators (d :: '٬' :: (grouped ds ++ r)) = _
        rw [hd]
        show d :: (if ('٬' == '٬' || _) && threeDigits (grouped ds ++ r) then _ else _) = _
        rw [hthree]
        show d :: withoutSeparators (grouped ds ++ r) = _
        rw [ih hds, List.cons_append]
      · show withoutSeparators (d :: (grouped ds ++ r)) = _
        rw [hd, ih hds, List.cons_append]

/-! ### The text as it is read -/

/-- A text that neither begins nor ends with a space. -/
theorem trim_self {t u v : List Char} {c d : Char} (hhead : t = c :: u) (hlast : t = v ++ [d])
    (hc : isJsSpace c = false) (hd : isJsSpace d = false) : trim t = t := by
  have hfront : t.dropWhile isJsSpace = t := by
    rw [hhead, List.dropWhile_cons_of_neg (by rw [hc]; exact Bool.false_ne_true)]
  have hreverse : t.reverse = d :: v.reverse := by rw [hlast, List.reverse_append]; rfl
  have hback : t.reverse.dropWhile isJsSpace = t.reverse := by
    rw [hreverse, List.dropWhile_cons_of_neg (by rw [hd]; exact Bool.false_ne_true)]
  unfold trim
  rw [hfront, hback, List.reverse_reverse]

theorem digit_not_space {c : Char} (h : c.isDigit = true) : isJsSpace c = false := by
  rcases digit_cases h with rfl | rfl | rfl | rfl | rfl | rfl | rfl | rfl | rfl | rfl <;> decide

theorem pointed_self {t : List Char} (h : ∀ c ∈ t, c ≠ '٫') : pointed t = t := by
  induction t with
  | nil => rfl
  | cons c t ih =>
      show (if c == '٫' then '.' else c) :: pointed t = _
      rw [if_neg (by simpa using h c List.mem_cons_self), ih fun a ha => h a (List.mem_cons_of_mem c ha)]

theorem digit_not_point {c : Char} (h : c.isDigit = true) : c ≠ '٫' := by
  rcases digit_cases h with rfl | rfl | rfl | rfl | rfl | rfl | rfl | rfl | rfl | rfl <;> decide

/-! ### What begins no pattern -/

/-- The digits, the space and the point. -/
def isFiller (c : Char) : Bool := c.isDigit || c == ' ' || c == '.'

theorem filler_cases {c : Char} (h : isFiller c = true) : c.isDigit = true ∨ c = ' ' ∨ c = '.' := by
  unfold isFiller at h
  simp only [Bool.or_eq_true, beq_iff_eq] at h
  exact or_assoc.mp h

/-- The patterns of the readers. -/
def pricePatterns : List Pattern :=
  [milliardPattern, millionPattern, thousandPattern, tomanOrRial, word rial] ++ currencies.map Prod.fst

/-- No pattern of a reader begins with a filler. -/
theorem pattern_filler {p : Pattern} (hp : p ∈ pricePatterns) {c : Char} (hc : isFiller c = true)
    (t : List Char) : p (c :: t) = false := by
  have hall : ∀ c : Char, (c.isDigit = true ∨ c = ' ' ∨ c = '.') →
      pricePatterns.all (fun p => !p (c :: t)) = true := by
    rintro c (hdigit | rfl | rfl)
    · rcases digit_cases hdigit with rfl | rfl | rfl | rfl | rfl | rfl | rfl | rfl | rfl | rfl <;> rfl
    · rfl
    · rfl
  have hone := List.all_eq_true.mp (hall c (filler_cases hc)) p hp
  simpa using hone

theorem misses_fillers {p : Pattern} (hp : p ∈ pricePatterns) {l : List Char}
    (hl : ∀ c ∈ l, isFiller c = true) (r : List Char) : Misses p l r :=
  misses_of_heads (fun c hc t => pattern_filler hp (hl c hc) t) r

theorem digits_filler {ds : List Char} (h : ∀ c ∈ ds, c.isDigit = true) : ∀ c ∈ ds, isFiller c = true := by
  intro c hc
  unfold isFiller
  rw [h c hc]
  rfl

/-- A table is searched behind what begins none of its patterns. -/
theorem firstOf_append {α : Type} {table : List (Pattern × α)} {l r : List Char}
    (h : ∀ entry ∈ table, Misses entry.1 l r) : firstOf table (l ++ r) = firstOf table r := by
  unfold firstOf
  congr 1
  induction table with
  | nil => rfl
  | cons entry table ih =>
      rw [List.find?_cons, List.find?_cons, occurs_append (h entry List.mem_cons_self),
        ih fun e he => h e (List.mem_cons_of_mem entry he)]

/-! ### The reader -/

/-- What the reader of the totals makes of a text with a figure and a unit. -/
theorem parseCargoPrice_of {raw tail : List Char} {figure : Figure} {n scale : ℕ} {currency : FareCurrency}
    (hraw : raw ≠ []) (hfigure : firstFigure (cleaned raw) = some (figure, tail))
    (hvalue : numberOf figure = ((n : ℚ) : WithTop ℚ)) (hn : 0 < n)
    (hcurrency : (firstOf currencies (cleaned raw)).getD .toman = currency)
    (hscale : (firstOf scales tail).getD 1 = scale)
    (hunit : currency ≠ .toman ∨ occurs tomanOrRial (cleaned raw) = true)
    (hrial : currency = .toman → occurs (word rial) (cleaned raw) = false)
    (hsafe : n * scale ≤ 2 ^ 53) :
    parseCargoPrice raw = some ⟨((n * scale : ℕ) : ℤ), currency⟩ := by
  have hpositive : ¬ (((n : ℚ) : WithTop ℚ) = ⊤ ∨ ((n : ℚ) : WithTop ℚ) ≤ 0) := by
    rintro (h | h)
    · cases h
    · have hle : (n : ℚ) ≤ 0 := by exact_mod_cast h
      have hpos : (0 : ℚ) < n := by exact_mod_cast hn
      linarith
  have hread : valueAndTail (cleaned raw) = some (((n : ℚ) : WithTop ℚ), tail) := by
    unfold valueAndTail
    rw [hfigure]
    dsimp only
    rw [hvalue]
  have hwritten : (decide (currency ≠ .toman) || occurs tomanOrRial (cleaned raw)) = true := by
    rcases hunit with h | h
    · rw [decide_eq_true h]
      rfl
    · rw [h, Bool.or_true]
  have hno : ¬ (currency = .toman ∧ occurs (word rial) (cleaned raw) = true) := by
    rintro ⟨hc, h⟩
    rw [hrial hc] at h
    cases h
  unfold parseCargoPrice
  rw [if_neg hraw]
  dsimp only
  rw [hread, hcurrency]
  dsimp only
  rw [hscale, if_neg hpositive, hwritten, if_neg fun h => Bool.false_ne_true h.1.symm, if_neg hno,
    times_natCast hsafe, rounded_natCast]

theorem safeAmount_natCast {n : ℕ} (hn : 0 < n) (hsafe : n ≤ maxSafeInteger) (currency : FareCurrency) :
    safeAmount ((n : ℤ) : WithTop ℤ) currency = some ⟨n, currency⟩ := by
  show (if (0 : ℤ) < n ∧ (n : ℤ) ≤ maxSafeInteger then some (⟨(n : ℤ).toNat, currency⟩ : Amount) else none) = _
  rw [if_pos ⟨by exact_mod_cast hn, by exact_mod_cast hsafe⟩, Int.toNat_natCast]

/-- A text with a letter is read as a price. -/
theorem readAmount_of_price {text : List Char} {c : Char} {n : ℕ} {currency : FareCurrency}
    (hmem : c ∈ latin text) (hletter : isAmountFiller c = false) (hdigit : c.isDigit = false)
    (hprice : parseCargoPrice text = some ⟨(n : ℤ), currency⟩) (hn : 0 < n) (hsafe : n ≤ maxSafeInteger) :
    readAmount text = some ⟨n, currency⟩ := by
  have hne : text ≠ [] := by
    rintro rfl
    cases hmem
  have hnot : ¬ (((latin text).filter fun c => !isAmountFiller c) ≠ [] ∧
      ((latin text).filter fun c => !isAmountFiller c).all Char.isDigit = true) := by
    rintro ⟨_, hall⟩
    have hc : c ∈ (latin text).filter fun c => !isAmountFiller c :=
      List.mem_filter.mpr ⟨hmem, by rw [hletter]; rfl⟩
    rw [List.all_eq_true.mp hall c hc] at hdigit
    cases hdigit
  unfold readAmount
  rw [if_neg hne]
  dsimp only
  rw [if_neg hnot, hprice]
  exact safeAmount_natCast hn hsafe currency

/-! ### A figure with its unit -/

theorem safe_le {n : ℕ} (h : n ≤ maxSafeInteger) : n ≤ 2 ^ 53 := h.trans (Nat.sub_le _ _)

/-- A bare figure. -/
theorem readAmount_faNumber {n : ℕ} (hn : 0 < n) (hsafe : n ≤ maxSafeInteger) :
    readAmount (faNumber n) = some ⟨n, .toman⟩ := by
  have hclean : (latin (faNumber n)).filter (fun c => !isAmountFiller c) = digitsOf n := by
    unfold faNumber
    rw [latin_grouped isDigit_digitsOf]
    refine filter_grouped isDigit_digitsOf _ (fun c hc => ?_) (by decide)
    rcases digit_cases hc with rfl | rfl | rfl | rfl | rfl | rfl | rfl | rfl | rfl | rfl <;> decide
  have hne : faNumber n ≠ [] := by
    intro h
    rw [h] at hclean
    exact digitsOf_ne_nil n hclean.symm
  unfold readAmount
  rw [if_neg hne]
  dsimp only
  rw [hclean, if_pos ⟨digitsOf_ne_nil n, List.all_eq_true.mpr isDigit_digitsOf⟩,
    numberOf_digitsOf (safe_le hsafe), rounded_natCast]
  exact safeAmount_natCast hn hsafe _

/-- The label of a currency, with its last letter apart. -/
theorem label_ends (c : FareCurrency) : ∃ t d, fareCurrencyLabel c = t ++ [d] ∧ isJsSpace d = false := by
  cases c with
  | toman => exact ⟨['ت', 'و', 'م', 'ا'], 'ن', rfl, by decide⟩
  | dollar => exact ⟨['د', 'ل', 'ا'], 'ر', rfl, by decide⟩
  | euro => exact ⟨['ی', 'و', 'ر'], 'و', rfl, by decide⟩
  | dirham => exact ⟨['د', 'ر', 'ه'], 'م', rfl, by decide⟩
  | lira => exact ⟨['ل', 'ی'], 'ر', rfl, by decide⟩

theorem latin_label (c : FareCurrency) : latin (' ' :: fareCurrencyLabel c) = ' ' :: fareCurrencyLabel c := by
  cases c <;> decide

theorem withoutSeparators_label (c : FareCurrency) :
    withoutSeparators (' ' :: fareCurrencyLabel c) = ' ' :: fareCurrencyLabel c := by
  cases c <;> decide

theorem label_not_point (c : FareCurrency) : ∀ a ∈ ' ' :: fareCurrencyLabel c, a ≠ '٫' := by
  have hlabel : '٫' ∉ ' ' :: fareCurrencyLabel c := by cases c <;> decide
  exact fun a ha hpoint => hlabel (hpoint ▸ ha)

/-- A figure with its unit, cleaned. -/
theorem cleaned_moneyText (n : ℕ) (c : FareCurrency) :
    cleaned (moneyText n c) = digitsOf n ++ ' ' :: fareCurrencyLabel c := by
  obtain ⟨d, ds, hds⟩ := List.exists_cons_of_ne_nil (digitsOf_ne_nil n)
  obtain ⟨t, e, hlabel, he⟩ := label_ends c
  have hd : isJsSpace d = false := digit_not_space (isDigit_digitsOf d (by rw [hds]; exact List.mem_cons_self))
  have hpoint : ∀ a ∈ digitsOf n ++ ' ' :: fareCurrencyLabel c, a ≠ '٫' := by
    intro a ha
    rcases List.mem_append.mp ha with ha | ha
    · exact digit_not_point (isDigit_digitsOf a ha)
    · exact label_not_point c a ha
  have htrim : trim (digitsOf n ++ ' ' :: fareCurrencyLabel c) = digitsOf n ++ ' ' :: fareCurrencyLabel c := by
    refine trim_self (c := d) (u := ds ++ ' ' :: fareCurrencyLabel c) (v := digitsOf n ++ ' ' :: t) (d := e)
      ?_ ?_ hd he
    · rw [hds]
      rfl
    · rw [hlabel, List.append_assoc]
      rfl
  unfold cleaned moneyText faNumber
  rw [latin_append, latin_grouped isDigit_digitsOf, latin_label, withoutSeparators_grouped isDigit_digitsOf,
    withoutSeparators_label, pointed_self hpoint, htrim]

theorem fractionOf_space (r : List Char) : fractionOf (' ' :: r) = ([], ' ' :: r) := rfl

/-- The figure of a text of digits, a space and words. -/
theorem firstFigure_digitsOf (n : ℕ) (r : List Char) :
    firstFigure (digitsOf n ++ ' ' :: r) = some (⟨digitsOf n, []⟩, ' ' :: r) := by
  refine firstFigure_whole (digitsOf_ne_nil n) isDigit_digitsOf (fun c hc => ?_) (fractionOf_space r)
  obtain rfl := Option.some.inj hc
  rfl

/-- A pattern is searched behind the figure. -/
theorem occurs_digitsOf {p : Pattern} (hp : p ∈ pricePatterns) (n : ℕ) (r : List Char) :
    occurs p (digitsOf n ++ r) = occurs p r :=
  occurs_append (misses_fillers hp (digits_filler isDigit_digitsOf) r)

theorem firstOf_currencies_digitsOf (n : ℕ) (r : List Char) :
    firstOf currencies (digitsOf n ++ r) = firstOf currencies r := by
  refine firstOf_append fun entry hentry => misses_fillers ?_ (digits_filler isDigit_digitsOf) r
  exact List.mem_append_right _ (List.mem_map_of_mem hentry)

theorem tomanOrRial_mem : tomanOrRial ∈ pricePatterns := by simp [pricePatterns]

theorem rial_mem : word rial ∈ pricePatterns := by simp [pricePatterns]

theorem milliard_mem : milliardPattern ∈ pricePatterns := by simp [pricePatterns]

theorem million_mem : millionPattern ∈ pricePatterns := by simp [pricePatterns]

theorem thousand_mem : thousandPattern ∈ pricePatterns := by simp [pricePatterns]

theorem readAmount_moneyText {n : ℕ} (hn : 0 < n) (hsafe : n ≤ maxSafeInteger) (c : FareCurrency) :
    readAmount (moneyText n c) = some ⟨n, c⟩ := by
  have hmem : 'ت' ∈ latin (moneyText n c) ∨ 'ر' ∈ latin (moneyText n c) := by
    unfold moneyText
    rw [latin_append, latin_label]
    cases c <;> simp [fareCurrencyLabel, toman]
  have hne : moneyText n c ≠ [] := by
    intro h
    rw [h] at hmem
    rcases hmem with h | h <;> cases h
  have hfigure : firstFigure (cleaned (moneyText n c)) =
      some (⟨digitsOf n, []⟩, ' ' :: fareCurrencyLabel c) := by
    rw [cleaned_moneyText]
    exact firstFigure_digitsOf n _
  have hprice : parseCargoPrice (moneyText n c) = some ⟨((n * 1 : ℕ) : ℤ), c⟩ := by
    refine parseCargoPrice_of hne hfigure (numberOf_digitsOf (safe_le hsafe)) hn ?_ ?_ ?_ ?_
      (by rw [mul_one]; exact safe_le hsafe)
    · rw [cleaned_moneyText, firstOf_currencies_digitsOf]
      cases c <;> decide
    · cases c <;> decide
    · rw [cleaned_moneyText, occurs_digitsOf tomanOrRial_mem]
      cases c <;> decide
    · rw [cleaned_moneyText, occurs_digitsOf rial_mem]
      cases c <;> decide
  rw [mul_one] at hprice
  rcases hmem with hmem | hmem
  · exact readAmount_of_price hmem (by decide) (by decide) hprice hn hsafe
  · exact readAmount_of_price hmem (by decide) (by decide) hprice hn hsafe

/-- **Written money reads back**: a positive safe amount shown with its unit, in any currency, or as a bare
figure, is read as that amount. -/
theorem readAmount_shown (n : ℕ) (hn : 0 < n) (hsafe : n ≤ maxSafeInteger) :
    (∀ c, readAmount (moneyText n c) = some ⟨n, c⟩) ∧ readAmount (faNumber n) = some ⟨n, .toman⟩ :=
  ⟨readAmount_moneyText hn hsafe, readAmount_faNumber hn hsafe⟩

theorem readAmount_shown_grouped :
    readAmount (moneyText 45000000 .toman) = some ⟨45000000, .toman⟩ ∧
      readAmount (faNumber 45000000) = some ⟨45000000, .toman⟩ :=
  have h := readAmount_shown 45000000 (by decide) (by decide)
  ⟨h.1 .toman, h.2⟩

/-! ### Amounts in words -/

/-- What is read of an amount in words: its largest group. -/
def leading : List (ℕ × List Char) → ℕ → ℕ
  | [], rest => rest
  | (size, _) :: sizes, rest => if rest / size = 0 then leading sizes (rest % size) else rest / size * size

/-- A figure, with the name of its size if it has one. -/
def Part (names : List (List Char)) (part : List Char) : Prop :=
  ∃ k, part = persian (digitsOf k) ∨ ∃ name ∈ names, part = persian (digitsOf k) ++ ' ' :: name

theorem Part.mono {names names' : List (List Char)} (hnames : ∀ name ∈ names, name ∈ names')
    {part : List Char} (h : Part names part) : Part names' part := by
  obtain ⟨k, hk | ⟨name, hname, hk⟩⟩ := h
  · exact ⟨k, .inl hk⟩
  · exact ⟨k, .inr ⟨name, hnames name hname, hk⟩⟩

theorem moneyParts_parts (sizes : List (ℕ × List Char)) (n : ℕ) :
    ∀ part ∈ moneyParts sizes n, Part (sizes.map Prod.snd) part := by
  induction sizes generalizing n with
  | nil =>
      intro part hpart
      unfold moneyParts at hpart
      split at hpart
      · cases hpart
      · exact ⟨n, .inl (List.mem_singleton.mp hpart)⟩
  | cons entry sizes ih =>
      obtain ⟨size, name⟩ := entry
      have hlater : ∀ part ∈ moneyParts sizes (n % size), Part (name :: sizes.map Prod.snd) part :=
        fun part hpart => (ih _ part hpart).mono fun _ => List.mem_cons_of_mem _
      intro part hpart
      unfold moneyParts at hpart
      dsimp only at hpart
      split at hpart
      · exact hlater part hpart
      · rcases List.mem_cons.mp hpart with rfl | hpart
        · exact ⟨n / size, .inr ⟨name, List.mem_cons_self, rfl⟩⟩
        · exact hlater part hpart

/-- The later parts, each after its «و». -/
def joinedTo (parts : List (List Char)) : List Char := parts.flatMap fun part => ' ' :: 'و' :: ' ' :: part

theorem joinedParts_cons (first : List Char) (parts : List (List Char)) :
    joinedParts (first :: parts) = first ++ joinedTo parts := by
  show [' ', 'و', ' '].intercalate (first :: parts) = _
  induction parts generalizing first with
  | nil => simp [joinedTo]
  | cons part parts ih =>
      rw [List.intercalate_cons_cons, ih part]
      simp [joinedTo]

/-- The names of the sizes. -/
def sizeNames : List (List Char) := [milliard, million, thousand]

/-- A part in Latin digits. -/
theorem latin_part {names : List (List Char)} (hnames : ∀ name ∈ names, name ∈ sizeNames)
    {part : List Char} (h : Part names part) :
    ∃ k, latin part = digitsOf k ∨ ∃ name ∈ names, latin part = digitsOf k ++ ' ' :: name := by
  have hname : ∀ name ∈ sizeNames, latin (' ' :: name) = ' ' :: name := by decide
  obtain ⟨k, rfl | ⟨name, hmem, rfl⟩⟩ := h
  · exact ⟨k, .inl (latin_persian isDigit_digitsOf)⟩
  · refine ⟨k, .inr ⟨name, hmem, ?_⟩⟩
    rw [latin_append, latin_persian isDigit_digitsOf, hname name (hnames name hmem)]

theorem latin_joinedTo (part : List Char) (parts : List (List Char)) :
    latin (joinedTo (part :: parts)) = ' ' :: 'و' :: ' ' :: (latin part ++ latin (joinedTo parts)) := by
  have hand : latin [' ', 'و', ' '] = [' ', 'و', ' '] := by decide
  show latin ([' ', 'و', ' '] ++ part ++ joinedTo parts) = _
  rw [latin_append, latin_append, hand]
  rfl

/-- What follows a part begins with a space. -/
theorem joinedTo_space (parts : List (List Char)) (r : List Char) :
    ∃ u, latin (joinedTo parts) ++ ' ' :: r = ' ' :: u := by
  cases parts with
  | nil => exact ⟨r, rfl⟩
  | cons part parts => exact ⟨_, by rw [latin_joinedTo, List.cons_append]⟩

/-- A pattern that no word of an amount holds is not in its later parts. -/
theorem occurs_joinedTo {p : Pattern} (hp : p ∈ pricePatterns) {names : List (List Char)}
    (hnames : ∀ name ∈ names, name ∈ sizeNames) (hmiss : ∀ name ∈ names, ∀ r, Misses p name (' ' :: r))
    (hand : ∀ r, p ('و' :: ' ' :: r) = false) {parts : List (List Char)}
    (hparts : ∀ part ∈ parts, Part names part) (r : List Char) :
    occurs p (latin (joinedTo parts) ++ ' ' :: r) = occurs p (' ' :: r) := by
  have hspace : ∀ t, p (' ' :: t) = false := pattern_filler hp rfl
  induction parts with
  | nil => rfl
  | cons part parts ih =>
      have hrest := ih fun q hq => hparts q (List.mem_cons_of_mem part hq)
      obtain ⟨u, hu⟩ := joinedTo_space parts r
      have hpart : Misses p (latin part) (' ' :: u) := by
        obtain ⟨k, hk | ⟨name, hname, hk⟩⟩ := latin_part hnames (hparts part List.mem_cons_self)
        · rw [hk]
          exact misses_fillers hp (digits_filler isDigit_digitsOf) _
        · rw [hk]
          refine (misses_fillers hp (digits_filler isDigit_digitsOf) _).append ?_
          exact misses_cons.mpr ⟨hspace _, hmiss name hname u⟩
      rw [latin_joinedTo]
      show occurs p ([' ', 'و', ' '] ++ latin part ++ latin (joinedTo parts) ++ ' ' :: r) = _
      rw [List.append_assoc, occurs_append, hrest]
      rw [hu]
      refine Misses.append ?_ hpart
      exact misses_cons.mpr ⟨hspace _, misses_cons.mpr ⟨hand _, misses_cons.mpr ⟨hspace _, rfl⟩⟩⟩

/-- The patterns that no amount in words holds. -/
def absentPatterns : List Pattern := word rial :: currencies.map Prod.fst

theorem absent_mem {p : Pattern} (hp : p ∈ absentPatterns) : p ∈ pricePatterns := by
  rcases List.mem_cons.mp hp with rfl | hp
  · exact rial_mem
  · exact List.mem_append_right _ hp

theorem absent_miss {p : Pattern} (hp : p ∈ absentPatterns) {name : List Char} (hname : name ∈ sizeNames)
    (r : List Char) : Misses p name (' ' :: r) := by
  simp only [absentPatterns, currencies, sizeNames, List.map_cons, List.map_nil, List.mem_cons,
    List.not_mem_nil, or_false] at hp hname
  rcases hp with rfl | rfl | rfl | rfl | rfl <;> rcases hname with rfl | rfl | rfl <;> rfl

theorem absent_and {p : Pattern} (hp : p ∈ absentPatterns) (r : List Char) :
    p ('و' :: ' ' :: r) = false := by
  simp only [absentPatterns, currencies, List.map_cons, List.map_nil, List.mem_cons, List.not_mem_nil,
    or_false] at hp
  rcases hp with rfl | rfl | rfl | rfl | rfl <;> rfl

/-- No character that the reader leaves out or changes. -/
def Plain (c : Char) : Prop := (c == '٬' || c == ',' || c == '،') = false ∧ c ≠ '٫'

theorem plain_digit {c : Char} (h : c.isDigit = true) : Plain c := ⟨digit_not_separator h, digit_not_point h⟩

theorem plain_name {name : List Char} (hname : name ∈ toman :: sizeNames) : ∀ c ∈ ' ' :: name, Plain c := by
  have hall : (toman :: sizeNames).all (fun name => (' ' :: name).all fun c =>
      !(c == '٬' || c == ',' || c == '،') && c != '٫') = true := by decide
  intro c hc
  have hc := List.all_eq_true.mp (List.all_eq_true.mp hall name hname) c hc
  rw [Bool.and_eq_true, Bool.not_eq_true', bne_iff_ne] at hc
  exact hc

theorem plain_joinedTo {parts : List (List Char)} (hparts : ∀ part ∈ parts, Part sizeNames part) :
    ∀ c ∈ latin (joinedTo parts), Plain c := by
  have hand : Plain ' ' ∧ Plain 'و' := ⟨⟨rfl, by decide⟩, ⟨rfl, by decide⟩⟩
  have hname : ∀ name ∈ sizeNames, ∀ c ∈ ' ' :: name, Plain c := fun name hname =>
    plain_name (List.mem_cons_of_mem _ hname)
  induction parts with
  | nil => exact fun c hc => absurd hc List.not_mem_nil
  | cons part parts ih =>
      intro c hc
      rw [latin_joinedTo] at hc
      rcases List.mem_cons.mp hc with rfl | hc
      · exact hand.1
      rcases List.mem_cons.mp hc with rfl | hc
      · exact hand.2
      rcases List.mem_cons.mp hc with rfl | hc
      · exact hand.1
      rcases List.mem_append.mp hc with hc | hc
      · obtain ⟨k, hk | ⟨name, hmem, hk⟩⟩ := latin_part (fun _ => id) (hparts part List.mem_cons_self)
        · rw [hk] at hc
          exact plain_digit (isDigit_digitsOf c hc)
        · rw [hk] at hc
          rcases List.mem_append.mp hc with hc | hc
          · exact plain_digit (isDigit_digitsOf c hc)
          · exact hname name hmem c hc
      · exact ih (fun q hq => hparts q (List.mem_cons_of_mem part hq)) c hc

/-- A plain text that begins with a digit and ends with a letter is read as it is. -/
theorem cleaned_plain {raw T u v : List Char} {c d : Char} (hraw : latin raw = T) (hplain : ∀ c ∈ T, Plain c)
    (hhead : T = c :: u) (hlast : T = v ++ [d]) (hc : isJsSpace c = false) (hd : isJsSpace d = false) :
    cleaned raw = T := by
  have hkept : withoutSeparators T = T := omitWhere_self fun a ha t => by
    rw [(hplain a ha).1]
    rfl
  unfold cleaned
  rw [hraw, hkept, pointed_self fun a ha => (hplain a ha).2]
  exact trim_self hhead hlast hc hd

/-- What follows the figure of the first part: the name of its size, the later parts, and the unit. -/
def wordsTail (s : List Char) (parts : List (List Char)) : List Char :=
  s ++ (latin (joinedTo parts) ++ ' ' :: toman)

/-- The first part has a named size, or is alone. -/
def FirstPart (s : List Char) (parts : List (List Char)) : Prop :=
  (s = [] ∧ parts = []) ∨ ∃ name ∈ sizeNames, s = ' ' :: name

theorem wordsTail_space {s : List Char} {parts : List (List Char)} (h : FirstPart s parts) :
    ∃ u, wordsTail s parts = ' ' :: u := by
  rcases h with ⟨rfl, rfl⟩ | ⟨name, _, rfl⟩
  · exact ⟨toman, rfl⟩
  · exact ⟨_, rfl⟩

theorem absent_wordsTail {p : Pattern} (hp : p ∈ absentPatterns) {s : List Char} {parts : List (List Char)}
    (hs : FirstPart s parts) (hparts : ∀ part ∈ parts, Part sizeNames part) :
    occurs p (wordsTail s parts) = occurs p (' ' :: toman) := by
  have hrest := occurs_joinedTo (absent_mem hp) (fun _ => id) (fun name hname => absent_miss hp hname)
    (absent_and hp) hparts toman
  rcases hs with ⟨rfl, rfl⟩ | ⟨name, hname, rfl⟩
  · rfl
  · obtain ⟨u, hu⟩ := joinedTo_space parts toman
    unfold wordsTail
    rw [occurs_append, hrest]
    rw [hu]
    exact misses_cons.mpr ⟨pattern_filler (absent_mem hp) rfl _, absent_miss hp hname u⟩

theorem firstOf_congr {α : Type} {table : List (Pattern × α)} {l r : List Char}
    (h : ∀ entry ∈ table, occurs entry.1 l = occurs entry.1 r) : firstOf table l = firstOf table r := by
  unfold firstOf
  congr 1
  induction table with
  | nil => rfl
  | cons entry table ih =>
      rw [List.find?_cons, List.find?_cons, h entry List.mem_cons_self,
        ih fun e he => h e (List.mem_cons_of_mem entry he)]

/-- **What is read of an amount in words**: the figure of its first part with the first size found. -/
theorem readAmount_parts {n g scale : ℕ} {s : List Char} {parts : List (List Char)}
    (hparts : moneyParts groupSizes n = (persian (digitsOf g) ++ s) :: parts) (hs : FirstPart s parts)
    (hlatin : latin s = s) (hscale : (firstOf scales (wordsTail s parts)).getD 1 = scale) (hg : 0 < g)
    (hpos : 0 < scale) (hsafe : g * scale ≤ maxSafeInteger) :
    readAmount (moneyWords n .toman) = some ⟨g * scale, .toman⟩ := by
  have hlater : ∀ part ∈ parts, Part sizeNames part := by
    intro part hpart
    apply moneyParts_parts groupSizes n part
    rw [hparts]
    exact List.mem_cons_of_mem _ hpart
  have hg' : g ≤ 2 ^ 53 := (Nat.le_mul_of_pos_right g hpos).trans (safe_le hsafe)
  -- the text in Latin digits
  have htext : latin (moneyWords n .toman) = digitsOf g ++ wordsTail s parts := by
    have hunit : latin (' ' :: toman) = ' ' :: toman := by decide
    show latin (joinedParts (moneyParts groupSizes n) ++ ' ' :: toman) = _
    rw [hparts, joinedParts_cons, latin_append, latin_append, latin_append, latin_persian isDigit_digitsOf,
      hlatin, hunit]
    unfold wordsTail
    rw [List.append_assoc, List.append_assoc]
  obtain ⟨d, ds, hds⟩ := List.exists_cons_of_ne_nil (digitsOf_ne_nil g)
  have hd : isJsSpace d = false := digit_not_space (isDigit_digitsOf d (by rw [hds]; exact List.mem_cons_self))
  have hplain : ∀ c ∈ digitsOf g ++ wordsTail s parts, Plain c := by
    have hunit : ∀ c ∈ ' ' :: toman, Plain c := plain_name List.mem_cons_self
    have hnames : ∀ name ∈ sizeNames, ∀ c ∈ ' ' :: name, Plain c := fun name hname =>
      plain_name (List.mem_cons_of_mem _ hname)
    intro c hc
    rcases List.mem_append.mp hc with hc | hc
    · exact plain_digit (isDigit_digitsOf c hc)
    rcases List.mem_append.mp hc with hc | hc
    · rcases hs with ⟨rfl, _⟩ | ⟨name, hname, rfl⟩
      · cases hc
      · exact hnames name hname c hc
    rcases List.mem_append.mp hc with hc | hc
    · exact plain_joinedTo hlater c hc
    · exact hunit c hc
  have hclean : cleaned (moneyWords n .toman) = digitsOf g ++ wordsTail s parts := by
    have hlast : digitsOf g ++ wordsTail s parts =
        (digitsOf g ++ (s ++ (latin (joinedTo parts) ++ ' ' :: ['ت', 'و', 'م', 'ا']))) ++ ['ن'] := by
      simp [wordsTail, toman]
    have hhead : digitsOf g ++ wordsTail s parts = d :: (ds ++ wordsTail s parts) := by
      rw [hds, List.cons_append]
    exact cleaned_plain htext hplain hhead hlast hd (by decide)
  obtain ⟨u, hu⟩ := wordsTail_space hs
  have hfigure : firstFigure (cleaned (moneyWords n .toman)) =
      some (⟨digitsOf g, []⟩, wordsTail s parts) := by
    rw [hclean, hu]
    exact firstFigure_digitsOf g u
  have hne : moneyWords n .toman ≠ [] := by
    intro h
    rw [h] at htext
    have hnil : digitsOf g ++ wordsTail s parts = [] := htext.symm
    rw [hds] at hnil
    cases hnil
  have habsent : ∀ p ∈ absentPatterns,
      occurs p (digitsOf g ++ wordsTail s parts) = occurs p (' ' :: toman) := by
    intro p hp
    rw [occurs_digitsOf (absent_mem hp), absent_wordsTail hp hs hlater]
  have hunit : occurs tomanOrRial (digitsOf g ++ wordsTail s parts) = true := by
    refine occurs_iff.mpr ⟨toman, ?_, rfl⟩
    refine ⟨digitsOf g ++ (s ++ (latin (joinedTo parts) ++ [' '])), ?_⟩
    simp [wordsTail]
  have hprice : parseCargoPrice (moneyWords n .toman) = some ⟨((g * scale : ℕ) : ℤ), .toman⟩ := by
    refine parseCargoPrice_of hne hfigure (numberOf_digitsOf hg') hg ?_ hscale (.inr ?_) (fun _ => ?_)
      (safe_le hsafe)
    · rw [hclean, firstOf_congr fun entry hentry =>
        habsent entry.1 (List.mem_cons_of_mem _ (List.mem_map_of_mem hentry))]
      decide
    · rw [hclean]
      exact hunit
    · rw [hclean, habsent _ List.mem_cons_self]
      decide
  have hletter : 'ت' ∈ latin (moneyWords n .toman) := by
    rw [htext]
    simp [wordsTail, toman]
  exact readAmount_of_price hletter (by decide) (by decide) hprice (Nat.mul_pos hg hpos) hsafe

section Groups

variable {size n : ℕ} {name : List Char} {sizes : List (ℕ × List Char)}

/-- A size above the amount has no part. -/
theorem moneyParts_below (h : n < size) : moneyParts ((size, name) :: sizes) n = moneyParts sizes n := by
  unfold moneyParts
  dsimp only
  rw [if_pos (Nat.div_eq_of_lt h), Nat.mod_eq_of_lt h]
  cases sizes <;> rfl

theorem moneyParts_from (hsize : 0 < size) (h : size ≤ n) :
    moneyParts ((size, name) :: sizes) n =
      (persian (digitsOf (n / size)) ++ ' ' :: name) :: moneyParts sizes (n % size) := by
  rw [moneyParts]
  exact if_neg (Nat.div_pos h hsize).ne'

theorem leading_below (h : n < size) : leading ((size, name) :: sizes) n = leading sizes n := by
  unfold leading
  rw [if_pos (Nat.div_eq_of_lt h), Nat.mod_eq_of_lt h]
  cases sizes <;> rfl

theorem leading_from (hsize : 0 < size) (h : size ≤ n) :
    leading ((size, name) :: sizes) n = n / size * size := by
  rw [leading]
  exact if_neg (Nat.div_pos h hsize).ne'

end Groups

/-- A size that is not in the tail is passed over. -/
theorem firstOf_skip {α : Type} {entry : Pattern × α} {table : List (Pattern × α)} {t : List Char}
    (h : occurs entry.1 t = false) : firstOf (entry :: table) t = firstOf table t := by
  unfold firstOf
  rw [List.find?_cons, h]

/-- A pattern that is in neither the name nor the later parts. -/
theorem not_occurs_wordsTail {p : Pattern} (hp : p ∈ pricePatterns) {name : List Char}
    {names : List (List Char)} (hnames : ∀ name ∈ names, name ∈ sizeNames)
    (hname : ∀ r, Misses p name (' ' :: r)) (hmiss : ∀ name ∈ names, ∀ r, Misses p name (' ' :: r))
    (hand : ∀ r, p ('و' :: ' ' :: r) = false) {parts : List (List Char)}
    (hparts : ∀ part ∈ parts, Part names part) (hunit : occurs p (' ' :: toman) = false) :
    occurs p (wordsTail (' ' :: name) parts) = false := by
  obtain ⟨u, hu⟩ := joinedTo_space parts toman
  unfold wordsTail
  rw [occurs_append, occurs_joinedTo hp hnames hmiss hand hparts, hunit]
  rw [hu]
  exact misses_cons.mpr ⟨pattern_filler hp rfl _, hname u⟩

/-- **Of an amount in words the largest group is read.** -/
theorem readAmount_moneyWords {n : ℕ} (hn : 0 < n) (hlimit : n < 10 ^ 12) :
    readAmount (moneyWords n .toman) = some ⟨leading groupSizes n, .toman⟩ := by
  have hsafe : ∀ size, n / size * size ≤ maxSafeInteger := by
    intro size
    have hle := Nat.div_mul_le_self n size
    unfold maxSafeInteger
    omega
  unfold groupSizes
  by_cases hmilliard : n < 1000000000
  · by_cases hmillion : n < 1000000
    · by_cases hthousand : n < 1000
      · -- below a thousand: a figure alone
        have hparts : moneyParts groupSizes n = [persian (digitsOf n) ++ []] := by
          unfold groupSizes
          rw [moneyParts_below hmilliard, moneyParts_below hmillion, moneyParts_below hthousand, moneyParts,
            if_neg hn.ne', List.append_nil]
        have hsmall : n * 1 ≤ maxSafeInteger := by
          unfold maxSafeInteger
          omega
        have hread := readAmount_parts hparts (.inl ⟨rfl, rfl⟩) rfl
          (show (firstOf scales (wordsTail [] [])).getD 1 = 1 by decide) hn Nat.one_pos hsmall
        rw [hread, leading_below hmilliard, leading_below hmillion, leading_below hthousand, leading, mul_one]
      · have hle : 1000 ≤ n := not_lt.mp hthousand
        have hparts : moneyParts groupSizes n = (persian (digitsOf (n / 1000)) ++ ' ' :: thousand) ::
            moneyParts [] (n % 1000) := by
          unfold groupSizes
          rw [moneyParts_below hmilliard, moneyParts_below hmillion, moneyParts_from (by decide) hle]
        have hlater := moneyParts_parts [] (n % 1000)
        have hscale : (firstOf scales (wordsTail (' ' :: thousand) (moneyParts [] (n % 1000)))).getD 1 =
            1000 := by
          unfold scales
          rw [firstOf_skip, firstOf_skip]
          · rfl
          · exact not_occurs_wordsTail million_mem (fun _ h => by cases h) (fun _ => rfl)
              (fun _ h => by cases h) (fun _ => rfl) hlater (by decide)
          · exact not_occurs_wordsTail milliard_mem (fun _ h => by cases h) (fun _ => rfl)
              (fun _ h => by cases h) (fun _ => rfl) hlater (by decide)
        rw [readAmount_parts hparts (.inr ⟨thousand, by decide, rfl⟩) (by decide) hscale
          (Nat.div_pos hle (by decide)) (by decide) (hsafe 1000), leading_below hmilliard,
          leading_below hmillion, leading_from (by decide) hle]
    · have hle : 1000000 ≤ n := not_lt.mp hmillion
      have hparts : moneyParts groupSizes n = (persian (digitsOf (n / 1000000)) ++ ' ' :: million) ::
          moneyParts [(1000, thousand)] (n % 1000000) := by
        unfold groupSizes
        rw [moneyParts_below hmilliard, moneyParts_from (by decide) hle]
      have hlater : ∀ part ∈ moneyParts [(1000, thousand)] (n % 1000000), Part [thousand] part :=
        moneyParts_parts _ _
      have hscale : (firstOf scales (wordsTail (' ' :: million)
          (moneyParts [(1000, thousand)] (n % 1000000)))).getD 1 = 1000000 := by
        unfold scales
        rw [firstOf_skip]
        · rfl
        · exact not_occurs_wordsTail milliard_mem (by decide) (fun _ => rfl)
            (fun name hname r => by rw [List.mem_singleton.mp hname]; rfl) (fun _ => rfl) hlater (by decide)
      rw [readAmount_parts hparts (.inr ⟨million, by decide, rfl⟩) (by decide) hscale
        (Nat.div_pos hle (by decide)) (by decide) (hsafe 1000000), leading_below hmilliard,
        leading_from (by decide) hle]
  · have hle : 1000000000 ≤ n := not_lt.mp hmilliard
    have hparts : moneyParts groupSizes n = (persian (digitsOf (n / 1000000000)) ++ ' ' :: milliard) ::
        moneyParts [(1000000, million), (1000, thousand)] (n % 1000000000) :=
      moneyParts_from (by decide) hle
    have hscale : (firstOf scales (wordsTail (' ' :: milliard)
        (moneyParts [(1000000, million), (1000, thousand)] (n % 1000000000)))).getD 1 = 1000000000 := rfl
    rw [readAmount_parts hparts (.inr ⟨milliard, by decide, rfl⟩) (by decide) hscale
      (Nat.div_pos hle (by decide)) (by decide) (hsafe 1000000000), leading_from (by decide) hle]

/-- One group of three digits, the others zero. -/
def OneGroup (n : ℕ) : Prop := ∃ g k, g < 1000 ∧ n = g * 1000 ^ k

theorem leading_eq_iff {n : ℕ} (hlimit : n < 10 ^ 12) :
    leading groupSizes n = n ↔ OneGroup n := by
  -- an amount of at least a size has one group only if the size divides it
  have hdivides : ∀ {j : ℕ}, 1000 ^ j ≤ n → OneGroup n → n / 1000 ^ j * 1000 ^ j = n := by
    rintro j hj ⟨g, k, hg, hgk⟩
    have hjk : j ≤ k := by
      by_contra hlt
      have hpow : 1000 * 1000 ^ k ≤ 1000 ^ j := by
        rw [← Nat.pow_succ']
        exact Nat.pow_le_pow_right (by decide) (not_le.mp hlt)
      have hsmall : n < 1000 * 1000 ^ k := by
        rw [hgk]
        exact Nat.mul_lt_mul_of_pos_right hg (by positivity)
      omega
    refine Nat.div_mul_cancel ?_
    rw [hgk]
    exact (pow_dvd_pow 1000 hjk).mul_left g
  have hgroup : ∀ {j : ℕ}, n < 1000 * 1000 ^ j → n / 1000 ^ j * 1000 ^ j = n → OneGroup n := by
    intro j hlt heq
    refine ⟨n / 1000 ^ j, j, Nat.div_lt_of_lt_mul ?_, heq.symm⟩
    rwa [Nat.mul_comm]
  unfold groupSizes
  by_cases hmilliard : n < 1000000000
  · by_cases hmillion : n < 1000000
    · by_cases hthousand : n < 1000
      · rw [leading_below hmilliard, leading_below hmillion, leading_below hthousand, leading]
        exact ⟨fun _ => ⟨n, 0, hthousand, (mul_one n).symm⟩, fun _ => rfl⟩
      · rw [leading_below hmilliard, leading_below hmillion, leading_from (by decide) (not_lt.mp hthousand)]
        exact ⟨hgroup (j := 1) hmillion, hdivides (j := 1) (not_lt.mp hthousand)⟩
    · rw [leading_below hmilliard, leading_from (by decide) (not_lt.mp hmillion)]
      exact ⟨hgroup (j := 2) hmilliard, hdivides (j := 2) (not_lt.mp hmillion)⟩
  · rw [leading_from (by decide) (not_lt.mp hmilliard)]
    exact ⟨hgroup (j := 3) hlimit, hdivides (j := 3) (not_lt.mp hmilliard)⟩

/-- **An amount in words is read as itself exactly when it has one group of three digits.** -/
theorem readAmount_words_iff (n : ℕ) (hn : 0 < n) (hlimit : n < 10 ^ 12) :
    readAmount (moneyWords n .toman) = some ⟨n, .toman⟩ ↔ OneGroup n := by
  rw [readAmount_moneyWords hn hlimit, Option.some.injEq, Amount.mk.injEq]
  exact (and_iff_left rfl).trans (leading_eq_iff hlimit)

theorem readAmount_words_million :
    readAmount (moneyWords 45000000 .toman) = some ⟨45000000, .toman⟩ :=
  (readAmount_words_iff 45000000 (by decide) (by decide)).mpr ⟨45, 2, by decide, by decide⟩

/-- «۴۵ میلیون و ۵۰۰ هزار تومان» is read as 45,000,000. -/
theorem not_readAmount_words :
    readAmount (moneyWords 45500000 .toman) = some ⟨45000000, .toman⟩ ∧
      readAmount (moneyWords 45500000 .toman) ≠ some ⟨45500000, .toman⟩ := by
  have hread : readAmount (moneyWords 45500000 .toman) = some ⟨45000000, .toman⟩ :=
    readAmount_moneyWords (by decide) (by decide)
  refine ⟨hread, ?_⟩
  rw [hread]
  decide

end TransportBackend.MoneyTexts
