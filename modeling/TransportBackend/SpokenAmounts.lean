import TransportBackend.GroupedPrices
import TransportBackend.SpokenDigits

/-!
# Amounts that were said

An amount in words is turned to digits as the text of a voice message is, and read as a freight.  «میلیارد» is a
word of the speller and of the price reader, but no number word where words are turned to digits.

* `spokenText`: what becomes of an amount in words;
* `numbersToDigits_amount`: **every run before and behind «میلیارد» is turned to digits on its own**;
* `KeepsAmounts`: normalizing leaves such a text as it is;
* `parsePriceToman_amount`: what is read of the text;
* `spoken_amount_iff`: **when an amount keeps its value**;
* `not_spoken_amount`: one and a half milliard is read as one milliard, or as half of one.
-/

namespace TransportBackend.SpokenAmounts

open TransportBackend.Binary64
open TransportBackend.DoubleRange
open TransportBackend.GroupedPrices
open TransportBackend.MoneyTexts
open TransportBackend.NumberWordValues
open TransportBackend.PersianNumberWords
open TransportBackend.PriceForms
open TransportBackend.PriceGroups
open TransportBackend.PriceReaders
open TransportBackend.PriceTexts
open TransportBackend.PriceWords
open TransportBackend.SpokenDigits
open TransportBackend.SpokenNumbers
open TransportBackend.TextPatterns
open TransportBackend.TrimmedTexts
open TransportBackend.TripFareRules

/-! ### The words of an amount -/

/-- What is said: an amount in words, and its unit. -/
def spokenAmount (n : ℕ) : List Char := integerToPersianWords (n : ℤ) ++ ' ' :: toman

/-- A run before «میلیارد» stays if it is «یک» or «نه». -/
def milliardsText (g : ℕ) : List Char :=
  if g = 1 ∨ g = 9 then integerToPersianWords (g : ℤ) else digitsOf g

/-- What is left of the amount behind the milliards. -/
def restText (n : ℕ) : List Char := if n = 0 then [] else ' ' :: 'و' :: ' ' :: amountText n

/-- What becomes of an amount in words. -/
def spokenText (n : ℕ) : List Char :=
  if n < 1000 ^ 3 then amountText n ++ ' ' :: toman
  else milliardsText (n / 1000 ^ 3) ++ ' ' :: milliard ++ restText (n % 1000 ^ 3) ++ ' ' :: toman

/-- The words of a number of milliards, and of what is left. -/
theorem milliards_tokens {n : ℕ} (hlow : ¬n < 1000 ^ 3) (hhigh : n < 1000 ^ 4) :
    spelledTokens 4 n = spelledTokens 3 (n / 1000 ^ 3) ++ milliard ::
      if n % 1000 ^ 3 = 0 then [] else joiner :: spelledTokens 3 (n % 1000 ^ 3) := by
  have hg : n / 1000 ^ 3 < 1000 := by omega
  have hpos : n / 1000 ^ 3 ≠ 0 := by omega
  have htop : groupAt n 3 = n / 1000 ^ 3 := Nat.mod_eq_of_lt hg
  have hlower : groupList 3 n = groupList 3 (n % 1000 ^ 3) := groupList_congr (Nat.mod_mod n (1000 ^ 3)).symm
  have hfirst : groupTokens 3 (n / 1000 ^ 3) = spelledTokens 3 (n / 1000 ^ 3) ++ [milliard] := by
    have hgroups : groupList 3 (n / 1000 ^ 3) = [joinedTokens ((parts (n / 1000 ^ 3)).map ([·]))] := by
      have hbottom : groupAt (n / 1000 ^ 3) 0 = n / 1000 ^ 3 ∧ groupAt (n / 1000 ^ 3) 1 = 0 ∧
          groupAt (n / 1000 ^ 3) 2 = 0 := by
        unfold groupAt
        omega
      rw [groupList, groupList, groupList, hbottom.1, hbottom.2.1, hbottom.2.2, if_pos rfl, if_pos rfl, if_neg hpos]
      unfold groupTokens
      rw [if_neg (by omega), if_pos rfl, List.append_nil]
      rfl
    unfold spelledTokens
    rw [hgroups, joinedTokens_singleton]
    unfold groupTokens
    rw [if_neg (by omega), if_neg (by omega)]
    rfl
  have hlist : groupList 4 n = groupTokens 3 (n / 1000 ^ 3) :: groupList 3 (n % 1000 ^ 3) := by
    rw [groupList, htop, if_neg hpos, hlower]
    rfl
  unfold spelledTokens at hfirst ⊢
  rw [hlist]
  by_cases hrest : n % 1000 ^ 3 = 0
  · rw [if_pos hrest, groupList_nil.mpr (by rw [hrest]; rfl), joinedTokens_singleton, hfirst]
  · have hne : groupList 3 (n % 1000 ^ 3) ≠ [] := fun h => hrest (by
      have hmod := groupList_nil.mp h
      rwa [Nat.mod_mod] at hmod)
    rw [if_neg hrest, joinedTokens_cons _ hne, hfirst, List.append_assoc]
    rfl

/-! ### Turned to digits -/

theorem stops_word {w : List Char} (hw : w = toman ∨ w = milliard) (blank : List Char)
    (rest : List (List Char × List Char)) :
    Stops ((w, blank) :: rest) ∧ wordOf (w, blank) = w ∧ isNumberWord (wordOf (w, blank)) = false := by
  have hall : ([toman, milliard].all fun w => !isNumberWord w && w != joiner &&
      w.all fun c => latinDigit c == c && !isEdgeMark c) = true := by decide
  have hmem : w ∈ [toman, milliard] := by
    rcases hw with rfl | rfl
    · exact List.mem_cons_self
    · exact List.mem_cons_of_mem _ List.mem_cons_self
  have h := List.all_eq_true.mp hall w hmem
  rw [Bool.and_eq_true, Bool.and_eq_true, Bool.not_eq_true', bne_iff_ne] at h
  obtain ⟨⟨hnumber, hjoiner⟩, hchars⟩ := h
  have hbare : Bare w := by
    intro c hc
    have h := List.all_eq_true.mp hchars c hc
    rw [Bool.and_eq_true, beq_iff_eq, Bool.not_eq_true'] at h
    exact h
  have hword := (bare_parts hbare blank).2.2
  refine ⟨⟨(w, blank), rest, rfl, ?_, ?_⟩, hword, ?_⟩ <;> rw [hword]
  · exact hnumber
  · exact hjoiner
  · exact hnumber

/-- Spelled words before the unit do not stay words. -/
theorem staysWords_unit {ws : List (List Char)} (hne : ws ≠ []) (hspelled : ∀ w ∈ ws, Spelled w) :
    staysWords ws (some toman) = false := by
  have hfigures : ws.all isFigure = false := by
    obtain ⟨w, ws, rfl⟩ := List.exists_cons_of_ne_nil hne
    rw [List.all_cons, (hspelled w List.mem_cons_self).letters]
    rfl
  have hquantity : (some toman : Option (List Char)).any (quantityAfter.contains ·) = true := by decide
  unfold staysWords
  rw [hfigures, hquantity, Bool.or_false]
  rcases ws with _ | ⟨w, _ | ⟨v, ws⟩⟩
  · rfl
  · exact Bool.and_false _
  · rfl

/-- A number below 10⁹ before the unit becomes its digits. -/
theorem convert_number {n : ℕ} (hne : n ≠ 0) (hn : n < 1000 ^ 3) {steps : ℕ} (hsteps : 2 ≤ steps) :
    convert steps ((spelledTokens 3 n).map (·, [' ']) ++ [(toman, [])]) = amountText n ++ ' ' :: toman := by
  have hmod := (below_milliard hn).2
  have hne' : n % 1000 ^ 3 ≠ 0 := hmod.symm ▸ hne
  obtain ⟨hstops, hword, hnumber⟩ := stops_word (.inl rfl) [] []
  obtain ⟨steps, rfl⟩ : ∃ k, steps = k + 1 + 1 := ⟨steps - 2, by omega⟩
  have hspelled : ∀ w ∈ spelledWords 3 n, Spelled w := fun w hw =>
    (spokenWord_cases (spelled_words (Nat.le_refl 3) w hw)).1
  rw [convert_chained numberKind_spoken (chained_spelledTokens (Nat.le_refl 3) hne') hstops,
    filter_spelledTokens (by omega), convert_word hnumber, convert_nil]
  show (if staysWords _ (some (wordOf (toman, []))) = true then _ else _) ++ _ = _
  rw [hword, staysWords_unit (spelledWords_ne_nil (Nat.le_refl 3) hne') hspelled, if_neg Bool.false_ne_true,
    runDigits_number hne hn]
  simp

/-- Before «میلیارد» only «یک» and «نه» stay words. -/
theorem staysWords_milliard {g : ℕ} (hne : g ≠ 0) (hg : g < 1000) :
    staysWords (spelledWords 3 g) (some milliard) = decide (g = 1 ∨ g = 9) := by
  have hmod : g % 1000 ^ 3 = g := (below_milliard (by omega)).2
  have hwords := spelledWords_ne_nil (Nat.le_refl 3) (hmod.symm ▸ hne : g % 1000 ^ 3 ≠ 0)
  have hspelled : ∀ w ∈ spelledWords 3 g, Spelled w := fun w hw =>
    (spokenWord_cases (spelled_words (Nat.le_refl 3) w hw)).1
  have hfigures : (spelledWords 3 g).all isFigure = false := by
    obtain ⟨w, ws, hcons⟩ := List.exists_cons_of_ne_nil hwords
    rw [hcons, List.all_cons, (hspelled w (by rw [hcons]; exact List.mem_cons_self)).letters]
    rfl
  have hquantity : (some milliard : Option (List Char)).any (quantityAfter.contains ·) = false := by decide
  by_cases hstays : g = 1 ∨ g = 9
  · rw [decide_eq_true hstays]
    rcases hstays with rfl | rfl <;> decide
  · rw [decide_eq_false hstays]
    unfold staysWords
    rw [hfigures, hquantity, Bool.or_false]
    have hvalue : readWords wordUnit wordScale (spelledWords 3 g) = g := by
      rw [readWords_spelledWords tables_spoken, hmod]
    rcases hcases : spelledWords 3 g with _ | ⟨w, _ | ⟨v, ws⟩⟩
    · rfl
    · rw [hcases] at hvalue
      cases hcontains : notAlone.contains w with
      | false =>
          show (notAlone.contains w && !false) = false
          rw [hcontains]
          rfl
      | true =>
          have hunits : ∀ w ∈ notAlone, readWords wordUnit wordScale [w] = 1 ∨
              readWords wordUnit wordScale [w] = 9 := by decide
          exact absurd (hvalue ▸ hunits w (List.contains_iff_mem.mp hcontains)) hstays
    · rfl

theorem textOf_spaced {ws : List (List Char)} (hne : ws ≠ []) : textOf (ws.map (·, [' '])) = spaced ws ++ [' '] := by
  induction ws with
  | nil => exact absurd rfl hne
  | cons w ws ih =>
      have hcons : textOf ((w :: ws).map (·, [' '])) = w ++ [' '] ++ textOf (ws.map (·, [' '])) := rfl
      rw [hcons]
      by_cases hnil : ws = []
      · subst hnil
        have hone : spaced [w] = w := List.intercalate_singleton
        rw [hone]
        exact List.append_nil _
      · rw [ih hnil, spaced_cons w hnil]
        simp

/-- The run before «میلیارد». -/
theorem convert_milliards {g : ℕ} (hne : g ≠ 0) (hg : g < 1000) (rest : List (List Char × List Char)) (steps : ℕ) :
    convert (steps + 2) ((spelledTokens 3 g).map (·, [' ']) ++ (milliard, [' ']) :: rest) =
      milliardsText g ++ ' ' :: milliard ++ ' ' :: convert steps rest := by
  have hsmall : g < 1000 ^ 3 := by omega
  have hmod := (below_milliard hsmall).2
  have hne' : g % 1000 ^ 3 ≠ 0 := hmod.symm ▸ hne
  have hchain := chained_spelledTokens (Nat.le_refl 3) hne'
  obtain ⟨hstops, hword, hnumber⟩ := stops_word (.inr rfl) [' '] rest
  rw [convert_chained numberKind_spoken hchain hstops, filter_spelledTokens (by omega), convert_word hnumber]
  show (if staysWords _ (some (wordOf (milliard, [' ']))) = true then _ else _) ++ _ = _
  rw [hword, staysWords_milliard hne hg, runDigits_number hne hsmall, textOf_spaced hchain.ne_nil]
  unfold milliardsText amountText
  have hnot : ¬g % 1000 ^ 2 = 0 := by omega
  rw [if_neg hnot, integerToPersianWords_spaced hne, (below_milliard hsmall).1]
  by_cases hstays : g = 1 ∨ g = 9
  · rw [decide_eq_true hstays, if_pos rfl, if_pos hstays]
    simp
  · rw [decide_eq_false hstays, if_neg Bool.false_ne_true, if_neg hstays]
    simp

/-- **Every run before and behind «میلیارد» is turned to digits on its own.** -/
theorem numbersToDigits_amount {n : ℕ} (hne : n ≠ 0) (hn : n < 1000 ^ 4) :
    numbersToDigits (spokenAmount n) = spokenText n := by
  have htokens : spelledTokens 4 n ≠ [] := fun h => hne (by
    have hmod := spelledTokens_nil.mp h
    rwa [Nat.mod_eq_of_lt hn] at hmod)
  have htext : spokenAmount n = spaced (spelledTokens 4 n ++ [toman]) := by
    have hone : spaced [toman] = toman := List.intercalate_singleton
    rw [spaced_append htokens (List.cons_ne_nil _ _), hone, ← integerToPersianWords_spaced hne]
    rfl
  have hwords : ∀ w ∈ spelledTokens 4 n, IsWord w := by
    have hall : ((joiner :: numerals ++ PersianNumberWords.scales.tail).all fun w =>
        w != [] && w.all fun c => !isJsSpace c) = true := by decide
    intro w hw
    have hmem : w ∈ joiner :: numerals ++ PersianNumberWords.scales.tail := by
      rcases mem_spelledTokens (Nat.le_refl 4) hw with rfl | h | ⟨i, hi, hpos, rfl⟩
      · exact List.mem_cons_self
      · exact List.mem_append_left _ (List.mem_cons_of_mem _ h)
      · refine List.mem_append_right _ ?_
        have hscales : ∀ i < 4, 0 < i → PersianNumberWords.scales.getD i [] ∈ PersianNumberWords.scales.tail := by decide
        exact hscales i hi hpos
    have h := List.all_eq_true.mp hall w hmem
    rw [Bool.and_eq_true, bne_iff_ne] at h
    exact ⟨h.1, noSpaces h.2⟩
  unfold numbersToDigits
  rw [htext, pieces_spaced hwords ⟨by decide, noSpaces (by decide)⟩]
  show convert ((spelledTokens 4 n).map (·, [' ']) ++ [(toman, [])]).length _ = _
  rw [List.length_append, List.length_map, List.length_singleton]
  unfold spokenText
  by_cases hlow : n < 1000 ^ 3
  · have hlength : 0 < (spelledTokens 4 n).length := List.length_pos_of_ne_nil htokens
    rw [if_pos hlow, (below_milliard hlow).1] at *
    exact convert_number hne hlow (by omega)
  · have hg : n / 1000 ^ 3 < 1000 := by omega
    have hpos : n / 1000 ^ 3 ≠ 0 := by omega
    have hfirst : 0 < (spelledTokens 3 (n / 1000 ^ 3)).length := by
      refine List.length_pos_of_ne_nil fun h => hpos ?_
      have hmod := spelledTokens_nil.mp h
      rwa [Nat.mod_eq_of_lt (by omega)] at hmod
    rw [if_neg hlow, milliards_tokens hlow hn, List.map_append, List.map_cons, List.append_assoc, List.cons_append]
    unfold restText
    by_cases hrest : n % 1000 ^ 3 = 0
    · obtain ⟨_, _, hnumber⟩ := stops_word (.inl rfl) [] []
      obtain ⟨k, hk⟩ : ∃ k, (spelledTokens 3 (n / 1000 ^ 3) ++ [milliard]).length + 1 = k + 1 + 2 := by
        refine ⟨(spelledTokens 3 (n / 1000 ^ 3)).length - 1, ?_⟩
        rw [List.length_append, List.length_singleton]
        omega
      rw [if_pos hrest, if_pos hrest, hk, convert_milliards hpos hg, List.map_nil, List.nil_append,
        convert_word hnumber, convert_nil]
      simp
    · have hsmall : n % 1000 ^ 3 < 1000 ^ 3 := by omega
      have hsecond : 0 < (spelledTokens 3 (n % 1000 ^ 3)).length := by
        refine List.length_pos_of_ne_nil fun h => hrest ?_
        have hmod := spelledTokens_nil.mp h
        rwa [Nat.mod_mod] at hmod
      have hjoiner : isNumberWord (wordOf (joiner, [' '])) = false := by
        rw [(bare_parts bare_joiner [' ']).2.2]
        exact not_number_joiner
      obtain ⟨k, hk, hk2⟩ : ∃ k, (spelledTokens 3 (n / 1000 ^ 3) ++
          milliard :: joiner :: spelledTokens 3 (n % 1000 ^ 3)).length + 1 = k + 1 + 2 ∧ 2 ≤ k := by
        refine ⟨(spelledTokens 3 (n / 1000 ^ 3)).length + (spelledTokens 3 (n % 1000 ^ 3)).length, ?_, by omega⟩
        rw [List.length_append, List.length_cons, List.length_cons]
        omega
      rw [if_neg hrest, if_neg hrest, hk, convert_milliards hpos hg, List.map_cons, List.cons_append,
        convert_word hjoiner, convert_number hrest hsmall hk2]
      simp [joiner]

/-! ### Normalized -/

/-- The characters of such a text: those of a price, and the «ک» of «یک». -/
def isAmountChar (c : Char) : Bool := isPriceChar c || c == 'ک'

/-- Normalizing leaves an amount as it is: its characters have no other form and no other case. -/
def KeepsAmounts (norm : Normalizer) : Prop :=
  ∀ t, (∀ c ∈ t, isAmountChar c = true) → norm.nfkc t = t ∧ norm.lowerCase t = t

/-- The words that are not turned to digits. -/
def keptWords : List (List Char) := [million, milliard, toman, joiner, ['ی', 'ک'], ['ن', 'ه']]

/-- A word of such a text, or a number. -/
def AmountWord (w : List Char) : Prop := w ∈ keptWords ∨ ∃ m, w = digitsOf m

theorem keptWord_chars {w : List Char} (hw : w ∈ keptWords) : w ≠ [] ∧ ∀ c ∈ w,
    isJsSpace c = false ∧ isAmountChar c = true ∧ latinDigit c = c ∧ isInvisible c = false ∧ persianLetter c = c ∧
      c ≠ '٫' ∧ c.isDigit = false := by
  have hall : (keptWords.all fun w => w != [] && w.all fun c => !isJsSpace c && (isAmountChar c &&
      (latinDigit c == c && (!isInvisible c && (persianLetter c == c && (c != '٫' && !c.isDigit)))))) = true := by
    decide
  have h := List.all_eq_true.mp hall w hw
  rw [Bool.and_eq_true, bne_iff_ne] at h
  refine ⟨h.1, fun c hc => ?_⟩
  have hone := List.all_eq_true.mp h.2 c hc
  simp only [Bool.and_eq_true, Bool.not_eq_true', beq_iff_eq, bne_iff_ne] at hone
  exact hone

theorem amountWord_chars {w : List Char} (hw : AmountWord w) : Solid w ∧ ∀ c ∈ w,
    isAmountChar c = true ∧ latinDigit c = c ∧ isInvisible c = false ∧ persianLetter c = c ∧ c ≠ '٫' := by
  rcases hw with hw | ⟨m, rfl⟩
  · obtain ⟨hne, hchars⟩ := keptWord_chars hw
    refine ⟨⟨hne, fun c hc => (hchars c hc).1⟩, fun c hc => ?_⟩
    obtain ⟨_, hchar, hlatin, hvisible, hletter, hpoint, _⟩ := hchars c hc
    exact ⟨hchar, hlatin, hvisible, hletter, hpoint⟩
  · refine ⟨solid_digits (digitsOf_ne_nil m) isDigit_digitsOf, fun c hc => ?_⟩
    rcases digit_cases (isDigit_digitsOf c hc) with rfl | rfl | rfl | rfl | rfl | rfl | rfl | rfl | rfl | rfl <;>
      decide

section Normalized

variable {ws : List (List Char)} (hne : ws ≠ []) (hws : ∀ w ∈ ws, AmountWord w)
include hne hws

theorem collapse_spaced : collapseSpaces false (spaced ws) = spaced ws := by
  induction ws with
  | nil => exact absurd rfl hne
  | cons w ws ih =>
      have hsolid := (amountWord_chars (hws w List.mem_cons_self)).1
      by_cases hnil : ws = []
      · subst hnil
        have hone : spaced [w] = w := List.intercalate_singleton
        have hcollapse := collapse_solid hsolid false []
        rw [List.append_nil] at hcollapse
        rw [hone, hcollapse]
        exact List.append_nil w
      · have hrest := ih hnil fun v hv => hws v (List.mem_cons_of_mem w hv)
        obtain ⟨v, vs, rfl⟩ := List.exists_cons_of_ne_nil hnil
        have hsolidNext := (amountWord_chars (hws v (List.mem_cons_of_mem w List.mem_cons_self))).1
        obtain ⟨r, hr⟩ : ∃ r, spaced (v :: vs) = v ++ r := by
          by_cases hlast : vs = []
          · subst hlast
            exact ⟨[], List.intercalate_singleton.trans (List.append_nil v).symm⟩
          · exact ⟨_, spaced_cons v hlast⟩
        have hspace : collapseSpaces false (' ' :: spaced (v :: vs)) = ' ' :: collapseSpaces false (spaced (v :: vs)) := by
          rw [hr, collapse_solid hsolidNext]
          exact collapse_spaces 1 hsolidNext r
        rw [spaced_cons w hnil, collapse_solid hsolid, hspace, hrest]

theorem spaced_ends : ∃ c u v d, spaced ws = c :: u ∧ spaced ws = v ++ [d] ∧ isJsSpace c = false ∧
    isJsSpace d = false := by
  induction ws with
  | nil => exact absurd rfl hne
  | cons w ws ih =>
      have hsolid := (amountWord_chars (hws w List.mem_cons_self)).1
      obtain ⟨c, u, rfl⟩ := List.exists_cons_of_ne_nil hsolid.1
      have hc := hsolid.2 c List.mem_cons_self
      by_cases hnil : ws = []
      · subst hnil
        obtain ⟨v, d, hlast, hd⟩ := hsolid.last
        have hone : spaced [c :: u] = c :: u := List.intercalate_singleton
        exact ⟨c, u, v, d, hone, hone.trans hlast, hc, hd⟩
      · obtain ⟨_, _, v, d, _, hlast, _, hd⟩ := ih hnil fun v hv => hws v (List.mem_cons_of_mem _ hv)
        refine ⟨c, u ++ ' ' :: spaced ws, c :: u ++ ' ' :: v, d, spaced_cons _ hnil, ?_, hc, hd⟩
        rw [spaced_cons _ hnil, hlast]
        simp

theorem spaced_chars : ∀ c ∈ spaced ws,
    isAmountChar c = true ∧ latinDigit c = c ∧ isInvisible c = false ∧ persianLetter c = c ∧ c ≠ '٫' := by
  induction ws with
  | nil => exact absurd rfl hne
  | cons w ws ih =>
      have hfirst := (amountWord_chars (hws w List.mem_cons_self)).2
      intro c hc
      by_cases hnil : ws = []
      · subst hnil
        have hone : spaced [w] = w := List.intercalate_singleton
        exact hfirst c (hone ▸ hc)
      · rw [spaced_cons w hnil] at hc
        rcases List.mem_append.mp hc with hc | hc
        · exact hfirst c hc
        rcases List.mem_cons.mp hc with rfl | hc
        · decide
        · exact ih hnil (fun v hv => hws v (List.mem_cons_of_mem w hv)) c hc

/-- Words with one space between them stay as they are. -/
theorem normalize_spaced {norm : Normalizer} (hn : KeepsAmounts norm) :
    normalizePersianText norm (spaced ws) = spaced ws ∧ pointed (spaced ws) = spaced ws ∧ spaced ws ≠ [] := by
  have hchars := spaced_chars hne hws
  obtain ⟨hform, hcase⟩ := hn (spaced ws) fun c hc => (hchars c hc).1
  obtain ⟨c, u, v, d, hhead, hlast, hc, hd⟩ := spaced_ends hne hws
  have hvisible : (spaced ws).filter (fun c => !isInvisible c) = spaced ws :=
    List.filter_eq_self.mpr fun c hc => by
      rw [(hchars c hc).2.2.1]
      rfl
  have hletters : (spaced ws).map persianLetter = spaced ws :=
    (List.map_congr_left fun c hc => (hchars c hc).2.2.2.1).trans (List.map_id _)
  refine ⟨?_, pointed_self fun c hc => (hchars c hc).2.2.2.2, hhead ▸ List.cons_ne_nil c u⟩
  unfold normalizePersianText
  rw [hform, hvisible, hletters, latin_self fun c hc => (hchars c hc).2.1, collapse_spaced hne hws,
    trim_self hhead hlast hc hd, hcase]

end Normalized

/-! ### Read -/

/-- Nothing is left out before, in and behind a number. -/
theorem withoutGroups_around {front rest : List Char} (hfront : ∀ c ∈ front, c.isDigit = false) (m : ℕ)
    (hends : noGroup rest = true) (hrest : withoutGroups rest = rest) :
    withoutGroups (front ++ (digitsOf m ++ rest)) = front ++ (digitsOf m ++ rest) := by
  rw [withoutGroups_append hfront, withoutGroups_digits isDigit_digitsOf hends, hrest]

theorem withoutGroups_letters {l : List Char} (hl : ∀ c ∈ l, c.isDigit = false) : withoutGroups l = l := by
  have h := withoutGroups_append hl []
  rw [List.append_nil] at h
  exact h.trans (List.append_nil l)

/-- A positive amount is read as it is. -/
theorem finite_positive {k : ℕ} (hk : 0 < k) {x : WithTop ℚ} (hx : x = ((k : ℚ) : WithTop ℚ)) :
    (if x = ⊤ ∨ x ≤ 0 then none else finite (rounded x)) = some (k : ℤ) := by
  have hpositive : ¬(((k : ℚ) : WithTop ℚ) = ⊤ ∨ ((k : ℚ) : WithTop ℚ) ≤ 0) := by
    rintro (htop | hzero)
    · exact WithTop.coe_ne_top htop
    · have hle : (k : ℚ) ≤ 0 := WithTop.coe_le_coe.mp hzero
      have hlt : (0 : ℚ) < k := Nat.cast_pos.mpr hk
      exact absurd hlt (not_lt.mpr hle)
  subst hx
  rw [if_neg hpositive, rounded_natCast]
  rfl

/-- What the reader of the filters makes of words with one space between them: the first number, by the
multiplier behind it. -/
theorem parsePriceToman_spaced {norm : Normalizer} (hn : KeepsAmounts norm) {ws : List (List Char)} (hne : ws ≠ [])
    (hws : ∀ w ∈ ws, AmountWord w) {front rest : List Char} {m scale : ℕ}
    (htext : spaced ws = front ++ (digitsOf m ++ ' ' :: rest)) (hfront : ∀ c ∈ front, c.isDigit = false)
    (hgroups : withoutGroups (spaced ws) = spaced ws) (hrial : occurs (word rial) (spaced ws) = false)
    (hscale : (firstMultiplier (' ' :: rest)).getD 1 = scale) (hpos : 0 < m * scale) (hexact : m * scale ≤ 2 ^ 53) :
    parsePriceToman norm (spaced ws) = some ((m * scale : ℕ) : ℤ) := by
  obtain ⟨hnormal, hpoints, hnonempty⟩ := normalize_spaced hne hws hn
  have hscalePos : 0 < scale := Nat.pos_of_mul_pos_left hpos
  have hm : m ≤ 2 ^ 53 := (Nat.le_mul_of_pos_right m hscalePos).trans hexact
  have hfigure : firstFigure (spaced ws) = some (⟨digitsOf m, []⟩, ' ' :: rest) := by
    rw [htext, firstFigure_append hfront, firstFigure_digitsOf]
  unfold parsePriceToman
  rw [if_neg hnonempty, hnormal, hgroups, hpoints]
  dsimp only
  rw [hfigure]
  dsimp only
  rw [hrial, if_neg Bool.false_ne_true, numberOf_digitsOf hm]
  cases hmultiplier : firstMultiplier (' ' :: rest) with
  | none =>
      obtain rfl : 1 = scale := by rwa [hmultiplier] at hscale
      rw [Nat.mul_one] at hpos ⊢
      exact finite_positive hpos rfl
  | some k =>
      obtain rfl : k = scale := by rwa [hmultiplier] at hscale
      exact finite_positive hpos (times_natCast hexact)

/-! ### Amounts read -/

/-- The words of an amount below 10⁹ once they are turned to digits. -/
def amountWords (n : ℕ) : List (List Char) :=
  if n % 1000 ^ 2 = 0 then [digitsOf (n / 1000 ^ 2), million] else [digitsOf n]

/-- What stands before such an amount where the run before «میلیارد» stays. -/
def fronts : List (List (List Char)) :=
  [[], [['ی', 'ک'], milliard, joiner], [['ن', 'ه'], milliard, joiner]]

theorem amountText_words (n : ℕ) : amountText n = spaced (amountWords n) := by
  unfold amountText amountWords
  split
  · rw [spaced_cons _ (List.cons_ne_nil _ _)]
    congr 2
  · exact List.intercalate_singleton.symm

theorem amountWords_mem (n : ℕ) : ∀ w ∈ amountWords n, AmountWord w := by
  intro w hw
  unfold amountWords at hw
  split at hw
  · rcases List.mem_cons.mp hw with rfl | hw
    · exact .inr ⟨_, rfl⟩
    · rw [List.mem_singleton.mp hw]
      exact .inl List.mem_cons_self
  · exact .inr ⟨n, List.mem_singleton.mp hw⟩

theorem amountWords_ne_nil (n : ℕ) : amountWords n ≠ [] := by
  unfold amountWords
  split <;> exact List.cons_ne_nil _ _

/-- What may stand behind the digits of an amount, and how much one of them is worth. -/
def tails : List (List Char × ℕ) := [(toman, 1), (million ++ ' ' :: toman, 1000 ^ 2)]

/-- An amount is a number, and what makes it that amount. -/
theorem amountWords_text (n : ℕ) : ∃ m, ∃ tail ∈ tails, m * tail.2 = n ∧
    spaced (amountWords n ++ [toman]) = digitsOf m ++ ' ' :: tail.1 := by
  have htoman : spaced [toman] = toman := List.intercalate_singleton
  rw [spaced_append (amountWords_ne_nil n) (List.cons_ne_nil _ _), ← amountText_words, htoman]
  unfold amountText
  split
  · rename_i hwhole
    refine ⟨n / 1000 ^ 2, (million ++ ' ' :: toman, 1000 ^ 2), List.mem_cons_of_mem _ List.mem_cons_self,
      Nat.div_mul_cancel (Nat.dvd_of_mod_eq_zero hwhole), ?_⟩
    simp
  · exact ⟨n, (toman, 1), List.mem_cons_self, Nat.mul_one n, rfl⟩

theorem tail_kept {tail : List Char × ℕ} (h : tail ∈ tails) : noGroup (' ' :: tail.1) = true ∧
    withoutGroups (' ' :: tail.1) = ' ' :: tail.1 ∧ occurs (word rial) (' ' :: tail.1) = false ∧
    (firstMultiplier (' ' :: tail.1)).getD 1 = tail.2 ∧ 0 < tail.2 := by
  have hall : (tails.all fun tail => noGroup (' ' :: tail.1) && (withoutGroups (' ' :: tail.1) == ' ' :: tail.1 &&
      (!occurs (word rial) (' ' :: tail.1) && ((firstMultiplier (' ' :: tail.1)).getD 1 == tail.2 &&
        decide (0 < tail.2))))) = true := by decide
  have hone := List.all_eq_true.mp hall tail h
  simp only [Bool.and_eq_true, Bool.not_eq_true', beq_iff_eq, decide_eq_true_eq] at hone
  exact hone

theorem front_kept {front : List (List Char)} (h : front ∈ fronts) : (∀ w ∈ front, AmountWord w) ∧
    (∀ c ∈ frontText front, c.isDigit = false) ∧ ∀ r, Misses (word rial) (frontText front) r := by
  have hall : (fronts.all fun front => (front.all fun w => keptWords.contains w) &&
      (frontText front).all fun c => !c.isDigit) = true := by decide
  have hone := List.all_eq_true.mp hall front h
  rw [Bool.and_eq_true] at hone
  refine ⟨fun w hw => .inl (List.contains_iff_mem.mp (List.all_eq_true.mp hone.1 w hw)), fun c hc => ?_, fun r => ?_⟩
  · have hc := List.all_eq_true.mp hone.2 c hc
    rwa [Bool.not_eq_true'] at hc
  · simp only [fronts, List.mem_cons, List.not_mem_nil, or_false] at h
    rcases h with rfl | rfl | rfl <;> rfl

/-- The amount behind what stays in words is what is read. -/
theorem parsePriceToman_front {norm : Normalizer} (hn : KeepsAmounts norm) {front : List (List Char)}
    (hfront : front ∈ fronts) {n : ℕ} (hpos : n ≠ 0) (hlow : n < 1000 ^ 3) :
    parsePriceToman norm (spaced (front ++ (amountWords n ++ [toman]))) = some (n : ℤ) := by
  obtain ⟨m, tail, htail, hvalue, htext⟩ := amountWords_text n
  obtain ⟨hnoGroup, hstays, hnoRial, hscale, _⟩ := tail_kept htail
  obtain ⟨hwords, hnoDigit, hmisses⟩ := front_kept hfront
  have hne : amountWords n ++ [toman] ≠ [] := by simp
  have hwhole : spaced (front ++ (amountWords n ++ [toman])) =
      frontText front ++ (digitsOf m ++ ' ' :: tail.1) := by rw [spaced_front front hne, htext]
  have hmem : ∀ w ∈ front ++ (amountWords n ++ [toman]), AmountWord w := by
    intro w hw
    rcases List.mem_append.mp hw with hw | hw
    · exact hwords w hw
    rcases List.mem_append.mp hw with hw | hw
    · exact amountWords_mem n w hw
    · rw [List.mem_singleton.mp hw]
      exact .inl (List.contains_iff_mem.mp (by decide))
  have hread := parsePriceToman_spaced (m := m) hn (by simp) hmem hwhole hnoDigit
    (by rw [hwhole]; exact withoutGroups_around hnoDigit m hnoGroup hstays)
    (by rw [hwhole, occurs_append (hmisses _), occurs_digitsOf rial_mem, hnoRial]) hscale (by omega) (by omega)
  rw [hread, hvalue]

/-- What stands behind «میلیارد». -/
def restWords (r : ℕ) : List (List Char) := (if r = 0 then [] else joiner :: amountWords r) ++ [toman]

/-- A number of milliards is what is read, whatever is left behind it. -/
theorem parsePriceToman_milliards {norm : Normalizer} (hn : KeepsAmounts norm) {g : ℕ} (hpos : g ≠ 0) (hg : g < 1000)
    (r : ℕ) : parsePriceToman norm (spaced (digitsOf g :: milliard :: restWords r)) =
      some ((g * 1000 ^ 3 : ℕ) : ℤ) := by
  have hne : restWords r ≠ [] := by simp [restWords]
  have hwhole : spaced (digitsOf g :: milliard :: restWords r) =
      [] ++ (digitsOf g ++ ' ' :: (milliard ++ ' ' :: spaced (restWords r))) := by
    rw [spaced_cons _ (List.cons_ne_nil _ _), spaced_cons _ hne, List.nil_append]
  have hmem : ∀ w ∈ digitsOf g :: milliard :: restWords r, AmountWord w := by
    intro w hw
    rcases List.mem_cons.mp hw with rfl | hw
    · exact .inr ⟨g, rfl⟩
    rcases List.mem_cons.mp hw with rfl | hw
    · exact .inl (List.contains_iff_mem.mp (by decide))
    rcases List.mem_append.mp hw with hw | hw
    · split at hw
      · cases hw
      · rcases List.mem_cons.mp hw with rfl | hw
        · exact .inl (List.contains_iff_mem.mp (by decide))
        · exact amountWords_mem r w hw
    · rw [List.mem_singleton.mp hw]
      exact .inl (List.contains_iff_mem.mp (by decide))
  have hrest : withoutGroups (' ' :: (milliard ++ ' ' :: spaced (restWords r))) =
      ' ' :: (milliard ++ ' ' :: spaced (restWords r)) ∧
      occurs (word rial) (' ' :: (milliard ++ ' ' :: spaced (restWords r))) = false := by
    unfold restWords
    by_cases hzero : r = 0
    · rw [if_pos hzero]
      decide
    · obtain ⟨m, tail, htail, _, htext⟩ := amountWords_text r
      obtain ⟨hnoGroup, hstays, hnoRial, _⟩ := tail_kept htail
      have hfront : ' ' :: (milliard ++ ' ' :: spaced (joiner :: amountWords r ++ [toman])) =
          (' ' :: milliard ++ [' ', 'و', ' ']) ++ (digitsOf m ++ ' ' :: tail.1) := by
        rw [List.cons_append, spaced_cons joiner (by simp), htext]
        rfl
      have hnoDigit : ∀ c ∈ ' ' :: milliard ++ [' ', 'و', ' '], c.isDigit = false := by
        have hall : ((' ' :: milliard ++ [' ', 'و', ' ']).all fun c => !c.isDigit) = true := by decide
        intro c hc
        have h := List.all_eq_true.mp hall c hc
        rwa [Bool.not_eq_true'] at h
      have hmisses : Misses (word rial) (' ' :: milliard ++ [' ', 'و', ' ']) (digitsOf m ++ ' ' :: tail.1) := rfl
      rw [if_neg hzero, hfront, withoutGroups_around hnoDigit m hnoGroup hstays, occurs_append hmisses,
        occurs_digitsOf rial_mem, hnoRial]
      exact ⟨rfl, rfl⟩
  have hscale : (firstMultiplier (' ' :: (milliard ++ ' ' :: spaced (restWords r)))).getD 1 = 1000 ^ 3 := by
    have hspace : firstMultiplier (spaces 1 ++ (milliard ++ ' ' :: spaced (restWords r))) =
        firstMultiplier (milliard ++ ' ' :: spaced (restWords r)) :=
      firstMultiplier_append fun entry hentry => misses_spaces (multiplier_mem hentry) 1 _
    have hfirst : firstMultiplier (milliard ++ ' ' :: spaced (restWords r)) = some Scale.milliard.value :=
      firstMultiplier_scale .milliard rfl
    have hboth : firstMultiplier (' ' :: (milliard ++ ' ' :: spaced (restWords r))) = some Scale.milliard.value :=
      hspace.trans hfirst
    rw [hboth]
    rfl
  have hgroups : withoutGroups (spaced (digitsOf g :: milliard :: restWords r)) =
      spaced (digitsOf g :: milliard :: restWords r) := by
    rw [hwhole]
    exact withoutGroups_around (fun c hc => absurd hc List.not_mem_nil) g rfl hrest.1
  have hrial : occurs (word rial) (spaced (digitsOf g :: milliard :: restWords r)) = false := by
    rw [hwhole, List.nil_append, occurs_digitsOf rial_mem, hrest.2]
  exact parsePriceToman_spaced hn (List.cons_ne_nil _ _) hmem hwhole (fun c hc => absurd hc List.not_mem_nil)
    hgroups hrial hscale (by omega) (by omega)

/-- Without a digit nothing is read. -/
theorem parsePriceToman_wordsOnly {norm : Normalizer} (hn : KeepsAmounts norm) {ws : List (List Char)} (hne : ws ≠ [])
    (hws : ∀ w ∈ ws, w ∈ keptWords) (hdigits : ∀ c ∈ spaced ws, c.isDigit = false) :
    parsePriceToman norm (spaced ws) = none := by
  obtain ⟨hnormal, hpoints, hnonempty⟩ := normalize_spaced hne (fun w hw => .inl (hws w hw)) hn
  unfold parsePriceToman
  rw [if_neg hnonempty, hnormal, withoutGroups_letters hdigits, hpoints]
  dsimp only
  rw [firstFigure_none hdigits]

/-! ### An amount that was said -/

theorem milliardsText_words {g : ℕ} (hg : g = 1 ∨ g = 9) :
    milliardsText g ∈ ([['ی', 'ک'], ['ن', 'ه']] : List (List Char)) := by
  rcases hg with rfl | rfl <;> decide

/-- The words of what becomes of an amount. -/
theorem spokenText_words {n : ℕ} (hlow : ¬n < 1000 ^ 3) :
    spokenText n = spaced (milliardsText (n / 1000 ^ 3) :: milliard :: restWords (n % 1000 ^ 3)) := by
  have htoman : spaced [toman] = toman := List.intercalate_singleton
  unfold spokenText restText restWords
  rw [if_neg hlow, spaced_cons _ (List.cons_ne_nil _ _), spaced_cons _ (by simp)]
  by_cases hrest : n % 1000 ^ 3 = 0
  · rw [if_pos hrest, if_pos hrest, List.nil_append, htoman]
    simp
  · rw [if_neg hrest, if_neg hrest, List.cons_append, spaced_cons _ (by simp),
      spaced_append (amountWords_ne_nil _) (List.cons_ne_nil _ _), ← amountText_words, htoman]
    simp [joiner]

/-- **What is read of an amount that was said.** -/
theorem parsePriceToman_amount {norm : Normalizer} (hn : KeepsAmounts norm) {n : ℕ} (hpos : n ≠ 0)
    (hhigh : n < 1000 ^ 4) : parsePriceToman norm (spokenText n) =
      if n < 1000 ^ 3 then some (n : ℤ)
      else if n / 1000 ^ 3 = 1 ∨ n / 1000 ^ 3 = 9 then
        if n % 1000 ^ 3 = 0 then none else some ((n % 1000 ^ 3 : ℕ) : ℤ)
      else some ((n / 1000 ^ 3 * 1000 ^ 3 : ℕ) : ℤ) := by
  by_cases hlow : n < 1000 ^ 3
  · have htoman : spaced [toman] = toman := List.intercalate_singleton
    have htext : spokenText n = spaced ([] ++ (amountWords n ++ [toman])) := by
      unfold spokenText
      rw [if_pos hlow, List.nil_append, spaced_append (amountWords_ne_nil n) (List.cons_ne_nil _ _),
        ← amountText_words, htoman]
    rw [if_pos hlow, htext, parsePriceToman_front hn List.mem_cons_self hpos hlow]
  rw [if_neg hlow, spokenText_words hlow]
  by_cases hstays : n / 1000 ^ 3 = 1 ∨ n / 1000 ^ 3 = 9
  · have hword := milliardsText_words hstays
    rw [if_pos hstays]
    unfold restWords
    by_cases hrest : n % 1000 ^ 3 = 0
    · rw [if_pos hrest, if_pos hrest]
      have hall : ([['ی', 'ک'], ['ن', 'ه']] : List (List Char)).all (fun w =>
          [w, milliard, toman].all (keptWords.contains ·) &&
            (spaced [w, milliard, toman]).all fun c => !c.isDigit) = true := by decide
      have hone := List.all_eq_true.mp hall _ hword
      rw [Bool.and_eq_true] at hone
      refine parsePriceToman_wordsOnly hn (List.cons_ne_nil _ _)
        (fun w hw => List.contains_iff_mem.mp (List.all_eq_true.mp hone.1 w hw)) fun c hc => ?_
      have h := List.all_eq_true.mp hone.2 c hc
      rwa [Bool.not_eq_true'] at h
    · have hfront : [milliardsText (n / 1000 ^ 3), milliard, joiner] ∈ fronts := by
        rcases List.mem_cons.mp hword with h | h
        · rw [h]
          exact List.mem_cons_of_mem _ List.mem_cons_self
        · rw [List.mem_singleton.mp h]
          exact List.mem_cons_of_mem _ (List.mem_cons_of_mem _ List.mem_cons_self)
      rw [if_neg hrest, if_neg hrest]
      exact parsePriceToman_front hn hfront hrest (by omega)
  · have hdigits : milliardsText (n / 1000 ^ 3) = digitsOf (n / 1000 ^ 3) := if_neg hstays
    rw [if_neg hstays, hdigits]
    exact parsePriceToman_milliards hn (by omega) (by omega) _

/-- **When an amount keeps its value**: below 10⁹, and where it is a whole number of milliards that is neither
one nor nine. -/
theorem spoken_amount_iff {norm : Normalizer} (hn : KeepsAmounts norm) {n : ℕ} (hpos : 1 ≤ n) (hhigh : n < 10 ^ 12) :
    parsePriceToman norm (numbersToDigits (spokenAmount n)) = some (n : ℤ) ↔
      n < 10 ^ 9 ∨ (10 ^ 9 ∣ n ∧ n ≠ 10 ^ 9 ∧ n ≠ 9 * 10 ^ 9) := by
  have hne : n ≠ 0 := by omega
  have hlimit : n < 1000 ^ 4 := by omega
  rw [numbersToDigits_amount hne hlimit, parsePriceToman_amount hn hne hlimit]
  split_ifs with hlow hstays hrest
  · exact iff_of_true rfl (.inl (by omega))
  · refine iff_of_false not_false ?_
    omega
  · rw [Option.some_inj, Int.natCast_inj]
    omega
  · rw [Option.some_inj, Int.natCast_inj]
    omega

theorem keepsAmounts_plain : KeepsAmounts plainNormalizer := fun _ _ => ⟨rfl, rfl⟩

theorem spoken_amount_iff_million : KeepsAmounts plainNormalizer ∧
    (parsePriceToman plainNormalizer (numbersToDigits (spokenAmount 2500000)) = some 2500000 ↔
      2500000 < 10 ^ 9 ∨ (10 ^ 9 ∣ 2500000 ∧ 2500000 ≠ 10 ^ 9 ∧ 2500000 ≠ 9 * 10 ^ 9)) :=
  ⟨keepsAmounts_plain, spoken_amount_iff keepsAmounts_plain (n := 2500000) (by decide) (by decide)⟩

/-- One and a half milliard is read as half of one, two and a half as two, and one milliard as nothing. -/
theorem not_spoken_amount :
    spokenAmount 1500000000 = "یک میلیارد و پانصد میلیون تومان".toList ∧
    numbersToDigits (spokenAmount 1500000000) = "یک میلیارد و 500 میلیون تومان".toList ∧
    parsePriceToman plainNormalizer (numbersToDigits (spokenAmount 1500000000)) = some 500000000 ∧
    parsePriceToman plainNormalizer (numbersToDigits (spokenAmount 2500000000)) = some 2000000000 ∧
    parsePriceToman plainNormalizer (numbersToDigits (spokenAmount 1000000000)) = none ∧
    ¬∀ n : ℕ, 1 ≤ n → n < 10 ^ 12 →
      parsePriceToman plainNormalizer (numbersToDigits (spokenAmount n)) = some (n : ℤ) := by
  have hhalf : parsePriceToman plainNormalizer (numbersToDigits (spokenAmount 1500000000)) = some 500000000 := by
    decide +kernel
  refine ⟨by decide +kernel, by decide +kernel, hhalf, by decide +kernel, by decide +kernel, fun hall => ?_⟩
  have h := hall 1500000000 (by norm_num) (by norm_num)
  rw [hhalf] at h
  revert h
  decide

end TransportBackend.SpokenAmounts
