import TransportBackend.MoneyTexts

/-!
# The spaces around a typed text

A text reaches the readers of `tripFare.ts` as it was typed or trimmed, as the messenger has it.  The
readers leave the spaces around it out of account: patterns have no space in them, and neither have
figures, separators or number words.

* `trim_split`, `trim_around`: what `trim` takes off;
* `readAmount_trim`, `readWeight_trim`: **the readers see no difference**.
-/

namespace TransportBackend.TrimmedTexts

open TransportBackend.DoubleRange
open TransportBackend.MoneyTexts
open TransportBackend.PriceTexts
open TransportBackend.TextPatterns
open TransportBackend.TripFareRules

/-- Nothing but spaces. -/
def Blank (l : List Char) : Prop := ∀ c ∈ l, isJsSpace c = true

variable {l r : List Char}

theorem Blank.head {c : Char} (h : Blank (c :: l)) : isJsSpace c = true := h c List.mem_cons_self

theorem Blank.tail {c : Char} (h : Blank (c :: l)) : Blank l := fun a ha => h a (List.mem_cons_of_mem c ha)

theorem Blank.reverse (h : Blank l) : Blank l.reverse := fun c hc => h c (List.mem_reverse.mp hc)

/-! ### What is trimmed -/

theorem blank_takeWhile (t : List Char) : Blank (t.takeWhile isJsSpace) := fun _ hc => List.mem_takeWhile_imp hc

/-- A text is what is left of it between two blanks. -/
theorem trim_split (t : List Char) : ∃ l r, Blank l ∧ Blank r ∧ t = l ++ (trim t ++ r) := by
  have hback := List.takeWhile_append_dropWhile (p := isJsSpace) (l := (t.dropWhile isJsSpace).reverse)
  refine ⟨t.takeWhile isJsSpace, ((t.dropWhile isJsSpace).reverse.takeWhile isJsSpace).reverse,
    blank_takeWhile t, (blank_takeWhile _).reverse, ?_⟩
  have hright : trim t ++ ((t.dropWhile isJsSpace).reverse.takeWhile isJsSpace).reverse = t.dropWhile isJsSpace := by
    unfold trim
    rw [← List.reverse_append, hback, List.reverse_reverse]
  rw [hright, List.takeWhile_append_dropWhile]

theorem dropWhile_blank (hl : Blank l) (t : List Char) :
    (l ++ t).dropWhile isJsSpace = t.dropWhile isJsSpace := by
  induction l with
  | nil => rfl
  | cons c l ih =>
      rw [List.cons_append, List.dropWhile_cons_of_pos hl.head]
      exact ih hl.tail

theorem trim_around (hl : Blank l) (hr : Blank r) (t : List Char) : trim (l ++ (t ++ r)) = trim t := by
  unfold trim
  rw [dropWhile_blank hl]
  congr 1
  by_cases hempty : t.dropWhile isJsSpace = []
  · have hblank : Blank t := fun c hc => List.dropWhile_eq_nil_iff.mp hempty c hc
    have hall : (t ++ r).dropWhile isJsSpace = [] := by
      rw [dropWhile_blank hblank]
      exact List.dropWhile_eq_nil_iff.mpr fun c hc => hr c hc
    rw [hempty, hall]
  · have hstay : (t ++ r).dropWhile isJsSpace = t.dropWhile isJsSpace ++ r := by
      rw [List.dropWhile_append, if_neg (by simpa using hempty)]
    rw [hstay, List.reverse_append, dropWhile_blank hr.reverse]

theorem trim_trim (t : List Char) : trim (trim t) = trim t := by
  obtain ⟨l, r, hl, hr, ht⟩ := trim_split t
  calc trim (trim t) = trim (l ++ (trim t ++ r)) := (trim_around hl hr (trim t)).symm
    _ = trim t := by rw [← ht]

/-! ### Spaces are none of the characters that count -/

theorem latinDigit_space {c : Char} (hc : isJsSpace c = true) : latinDigit c = c := by
  unfold latinDigit
  have hcode : ¬(0x06F0 ≤ c.toNat ∧ c.toNat ≤ 0x06F9) ∧ ¬(0x0660 ≤ c.toNat ∧ c.toNat ≤ 0x0669) := by
    simp only [isJsSpace, Bool.or_eq_true, decide_eq_true_eq, Bool.and_eq_true, List.mem_cons,
      List.not_mem_nil, or_false] at hc
    omega
  rw [if_neg hcode.1, if_neg hcode.2]

theorem space_not_digit {c : Char} (hc : isJsSpace c = true) : c.isDigit = false := by
  rw [Bool.eq_false_iff]
  intro hdigit
  rw [digit_not_space hdigit] at hc
  cases hc

theorem space_ne {c d : Char} (hc : isJsSpace c = true) (hd : isJsSpace d = false) : c ≠ d := by
  rintro rfl
  rw [hd] at hc
  cases hc

theorem latin_blank (hl : Blank l) : latin l = l := latin_self fun c hc => latinDigit_space (hl c hc)

theorem pointed_blank (hl : Blank l) : pointed l = l := pointed_self fun c hc => space_ne (hl c hc) (by decide)

theorem latin_around (hl : Blank l) (hr : Blank r) (t : List Char) :
    latin (l ++ (t ++ r)) = l ++ (latin t ++ r) := by
  rw [latin_append, latin_append, latin_blank hl, latin_blank hr]

theorem pointed_around (hl : Blank l) (hr : Blank r) (t : List Char) :
    pointed (l ++ (t ++ r)) = l ++ (pointed t ++ r) := by
  have happend : ∀ s u : List Char, pointed (s ++ u) = pointed s ++ pointed u := fun s u => List.map_append
  rw [happend, happend, pointed_blank hl, pointed_blank hr]

theorem threeDigits_blank (hr : Blank r) (t : List Char) : threeDigits (t ++ r) = threeDigits t := by
  have hhead : ∀ c ∈ r.head?, c.isDigit = false := fun c hc => space_not_digit (hr c (List.mem_of_mem_head? hc))
  rcases t with _ | ⟨a, _ | ⟨b, _ | ⟨c, t⟩⟩⟩
  · rcases r with _ | ⟨c, _ | ⟨d, _ | ⟨e, r⟩⟩⟩
    · rfl
    · rfl
    · rfl
    · simp [threeDigits, hhead c rfl]
  · rcases r with _ | ⟨c, _ | ⟨d, r⟩⟩
    · rfl
    · rfl
    · simp [threeDigits, hhead c rfl]
  · rcases r with _ | ⟨c, r⟩
    · rfl
    · simp [threeDigits, hhead c rfl]
  · rfl

/-- Separators before three digits are left out inside. -/
theorem omitWhere_around {separator : Char → Bool} (hspace : ∀ c, isJsSpace c = true → separator c = false)
    (hl : Blank l) (hr : Blank r) (t : List Char) :
    omitWhere (fun c t => separator c && threeDigits t) (l ++ (t ++ r)) =
      l ++ (omitWhere (fun c t => separator c && threeDigits t) t ++ r) := by
  rw [omitWhere_append fun c hc t => by rw [hspace c (hl c hc), Bool.false_and]]
  congr 1
  induction t with
  | nil =>
      exact omitWhere_self fun c hc t => by rw [hspace c (hr c hc), Bool.false_and]
  | cons c t ih =>
      rw [List.cons_append, omitWhere, omitWhere, threeDigits_blank hr]
      split
      · exact ih
      · rw [ih, List.cons_append]

/-! ### Figures and words -/

theorem takeWhile_blank (hr : Blank r) (t : List Char) :
    (t ++ r).takeWhile Char.isDigit = t.takeWhile Char.isDigit ∧
      (t ++ r).dropWhile Char.isDigit = t.dropWhile Char.isDigit ++ r := by
  induction t with
  | nil =>
      cases r with
      | nil => exact ⟨rfl, rfl⟩
      | cons c r =>
          have hc : c.isDigit = false := space_not_digit hr.head
          simp [hc]
  | cons c t ih =>
      cases hc : c.isDigit with
      | false => simp [hc]
      | true => simp [hc, ih]

theorem fractionOf_other {t : List Char} (h : ∀ c u, t ≠ '.' :: c :: u) : fractionOf t = ([], t) := by
  unfold fractionOf
  split
  · exact absurd rfl (h _ _)
  · rfl

theorem fractionOf_blank (hr : Blank r) (t : List Char) :
    fractionOf (t ++ r) = ((fractionOf t).1, (fractionOf t).2 ++ r) := by
  rcases t with _ | ⟨c, _ | ⟨d, t⟩⟩
  · rw [fractionOf_other (t := []) (by simp)]
    refine fractionOf_other fun c u heq => ?_
    rw [List.nil_append] at heq
    exact space_ne (hr '.' (by rw [heq]; exact List.mem_cons_self)) (by decide) rfl
  · rw [fractionOf_other (t := [c]) (by simp)]
    cases r with
    | nil => exact fractionOf_other (t := [c]) (by simp)
    | cons d r =>
        by_cases hc : c = '.'
        · subst hc
          show (if d.isDigit then _ else _) = _
          rw [space_not_digit hr.head]
          rfl
        · exact fractionOf_other fun e u heq => hc (List.cons.inj heq).1
  · by_cases hc : c = '.'
    · subst hc
      show (if d.isDigit then _ else _) = ((if d.isDigit then _ else _ : List Char × List Char).1,
        (if d.isDigit then _ else _ : List Char × List Char).2 ++ r)
      cases hd : d.isDigit with
      | false => rfl
      | true =>
          have hparts := takeWhile_blank hr (d :: t)
          exact Prod.ext hparts.1 hparts.2
    · rw [fractionOf_other (t := c :: d :: t) fun e u heq => hc (List.cons.inj heq).1]
      exact fractionOf_other fun e u heq => hc (List.cons.inj heq).1

theorem firstFigure_blank (hr : Blank r) (t : List Char) :
    firstFigure (t ++ r) = (firstFigure t).map fun found => (found.1, found.2 ++ r) := by
  have hdrop : (t ++ r).dropWhile (fun c => !c.isDigit) =
      if t.dropWhile (fun c => !c.isDigit) = [] then [] else t.dropWhile (fun c => !c.isDigit) ++ r := by
    rw [List.dropWhile_append]
    by_cases hempty : t.dropWhile (fun c => !c.isDigit) = []
    · have hall : r.dropWhile (fun c => !c.isDigit) = [] :=
        List.dropWhile_eq_nil_iff.mpr fun c hc => by rw [space_not_digit (hr c hc)]; rfl
      simp [hempty, hall]
    · simp [hempty]
  unfold firstFigure
  rw [hdrop]
  cases hcase : t.dropWhile (fun c => !c.isDigit) with
  | nil => rfl
  | cons c u =>
      have hparts := takeWhile_blank hr (c :: u)
      rw [List.cons_append] at hparts
      rw [if_neg (by simp), List.cons_append]
      dsimp only [Option.map_some]
      rw [hparts.1, hparts.2, fractionOf_blank hr]

theorem firstFigure_around (hl : Blank l) (hr : Blank r) (t : List Char) :
    (firstFigure (l ++ (t ++ r))).map Prod.fst = (firstFigure t).map Prod.fst := by
  rw [firstFigure_append fun c hc => space_not_digit (hl c hc), firstFigure_blank hr, Option.map_map]
  rfl

/-! ### Patterns -/

/-- A pattern that takes no space. -/
structure Spaceless (p : Pattern) : Prop where
  head : ∀ c t, isJsSpace c = true → p (c :: t) = false
  tail : ∀ t r, Blank r → p (t ++ r) = p t

theorem isPrefixOf_blank {w : List Char} (hw : ∀ c ∈ w, isJsSpace c = false) (hr : Blank r) (t : List Char) :
    w.isPrefixOf (t ++ r) = w.isPrefixOf t := by
  induction w generalizing t with
  | nil => simp
  | cons a w ih =>
      have ha : isJsSpace a = false := hw a List.mem_cons_self
      cases t with
      | nil =>
          cases r with
          | nil => rfl
          | cons c r =>
              have hne : (a == c) = false := beq_eq_false_iff_ne.mpr (space_ne hr.head ha).symm
              simp [List.isPrefixOf, hne]
      | cons c t =>
          rw [List.cons_append, List.isPrefixOf_cons_cons, List.isPrefixOf_cons_cons,
            ih (fun b hb => hw b (List.mem_cons_of_mem a hb))]

theorem spaceless_word {w : List Char} (hne : w ≠ []) (hw : ∀ c ∈ w, isJsSpace c = false) :
    Spaceless (word w) := by
  refine ⟨fun c t hc => ?_, fun t r hr => isPrefixOf_blank hw hr t⟩
  obtain ⟨a, u, rfl⟩ := List.exists_cons_of_ne_nil hne
  have hac : (a == c) = false := beq_eq_false_iff_ne.mpr (space_ne hc (hw a List.mem_cons_self)).symm
  simp [word, List.isPrefixOf, hac]

theorem toLower_space {c : Char} (hc : isJsSpace c = true) : c.toLower = c := by
  have hupper : ¬(c.val ≥ 'A'.val ∧ c.val ≤ 'Z'.val) := by
    intro hcode
    have hlow : 65 ≤ c.toNat := hcode.1
    have hhigh : c.toNat ≤ 90 := hcode.2
    simp only [isJsSpace, Bool.or_eq_true, decide_eq_true_eq, Bool.and_eq_true, List.mem_cons,
      List.not_mem_nil, or_false] at hc
    omega
  exact dif_neg hupper

theorem spaceless_wordI {w : List Char} (hne : w ≠ []) (hw : ∀ c ∈ w, isJsSpace c = false) :
    Spaceless (wordI w) := by
  have hlower : ∀ r, Blank r → r.map Char.toLower = r := fun r hr =>
    (List.map_congr_left fun c hc => toLower_space (hr c hc)).trans (List.map_id r)
  refine ⟨fun c t hc => ?_, fun t r hr => ?_⟩
  · show w.isPrefixOf (c.toLower :: t.map Char.toLower) = false
    rw [toLower_space hc]
    exact (spaceless_word hne hw).head c _ hc
  · show w.isPrefixOf ((t ++ r).map Char.toLower) = w.isPrefixOf (t.map Char.toLower)
    rw [List.map_append, hlower r hr]
    exact isPrefixOf_blank hw hr _

theorem spaceless_oneOf {ps : List Pattern} (h : ∀ p ∈ ps, Spaceless p) : Spaceless (oneOf ps) := by
  refine ⟨fun c t hc => ?_, fun t r hr => ?_⟩
  · exact List.any_eq_false.mpr fun p hp => by simp [(h p hp).head c t hc]
  · unfold oneOf
    induction ps with
    | nil => rfl
    | cons p ps ih =>
        rw [List.any_cons, List.any_cons, (h p List.mem_cons_self).tail t r hr,
          ih fun q hq => h q (List.mem_cons_of_mem p hq)]

theorem occurs_around {p : Pattern} (hp : Spaceless p) (hl : Blank l) (hr : Blank r) (t : List Char) :
    occurs p (l ++ (t ++ r)) = occurs p t := by
  rw [occurs_append (misses_of_heads (fun c hc u => hp.head c u (hl c hc)) _)]
  induction t with
  | nil =>
      have hmiss : Misses p r [] := misses_of_heads (fun c hc u => hp.head c u (hr c hc)) []
      have hoccurs := occurs_append hmiss
      rw [List.append_nil] at hoccurs
      exact hoccurs
  | cons c t ih =>
      have hsame : p (c :: (t ++ r)) = p (c :: t) := hp.tail (c :: t) r hr
      cases hc : p (c :: t) with
      | true =>
          rw [occurs_of_match hc]
          exact occurs_of_match (hsame.trans hc)
      | false =>
          have hnext : ∀ u, p (c :: u) = false → occurs p (c :: u) = occurs p u := by
            intro u hu
            unfold occurs
            rw [searchAt_cons hu, Option.isSome_map]
          rw [List.cons_append, hnext _ (hsame.trans hc), hnext _ hc]
          exact ih

theorem noSpaces {l : List Char} (h : l.all (fun c => !isJsSpace c) = true) : ∀ c ∈ l, isJsSpace c = false := by
  intro c hc
  simpa using List.all_eq_true.mp h c hc

theorem kiloPattern_spaceless : Spaceless kiloPattern := by
  refine spaceless_oneOf fun p hp => ?_
  rcases List.mem_cons.mp hp with rfl | hp
  · exact spaceless_word (by decide) (noSpaces (by decide))
  · rw [List.mem_singleton.mp hp]
    exact spaceless_wordI (by decide) (noSpaces (by decide))

theorem tonPattern_spaceless : Spaceless tonPattern := by
  refine spaceless_oneOf fun p hp => ?_
  rcases List.mem_cons.mp hp with rfl | hp
  · exact spaceless_word (by decide) (noSpaces (by decide))
  · rw [List.mem_singleton.mp hp]
    exact spaceless_wordI (by decide) (noSpaces (by decide))

/-! ### Number words -/

theorem splitOnP_before (hl : Blank l) (t : List Char) :
    (l ++ t).splitOnP isJsSpace = List.replicate l.length [] ++ t.splitOnP isJsSpace := by
  induction l with
  | nil => rfl
  | cons c l ih =>
      rw [List.cons_append, List.splitOnP_cons_eq_if_modifyHead, if_pos hl.head, ih hl.tail]
      rfl

theorem splitOnP_after (hr : Blank r) (t : List Char) :
    (t ++ r).splitOnP isJsSpace = t.splitOnP isJsSpace ++ List.replicate r.length [] := by
  induction t with
  | nil =>
      have hblank := splitOnP_before hr []
      rw [List.append_nil, List.splitOnP_nil] at hblank
      rw [List.nil_append, hblank, List.splitOnP_nil]
      exact (List.replicate_succ' (n := r.length) (a := [])).symm.trans List.replicate_succ
  | cons c t ih =>
      rw [List.cons_append, List.splitOnP_cons_eq_if_modifyHead, List.splitOnP_cons_eq_if_modifyHead, ih]
      split
      · rfl
      · obtain ⟨part, parts, hparts⟩ := List.exists_cons_of_ne_nil (List.splitOnP_ne_nil isJsSpace t)
        rw [hparts]
        rfl

theorem filterMap_empties {f : List Char → Option (Option ℕ)} (hf : f [] = none) (n : ℕ) :
    (List.replicate n ([] : List Char)).filterMap f = [] := by
  induction n with
  | zero => rfl
  | succ n ih =>
      rw [List.replicate_succ, List.filterMap_cons_none hf]
      exact ih

theorem wordsValue_around (hl : Blank l) (hr : Blank r) (t : List Char) :
    wordsValue (l ++ (t ++ r)) = wordsValue t := by
  have hnone : wordNumber [] = none := by decide
  unfold wordsValue
  rw [splitOnP_before hl, splitOnP_after hr, List.filterMap_append, List.filterMap_append,
    filterMap_empties hnone, filterMap_empties hnone, List.nil_append, List.append_nil]

/-! ### The readers -/

theorem cleaned_around (hl : Blank l) (hr : Blank r) (t : List Char) : cleaned (l ++ (t ++ r)) = cleaned t := by
  have hspace : ∀ c, isJsSpace c = true → (c == '٬' || c == ',' || c == '،') = false := by
    intro c hc
    simp [space_ne hc (d := '٬') (by decide), space_ne hc (d := ',') (by decide),
      space_ne hc (d := '،') (by decide)]
  unfold cleaned withoutSeparators
  rw [latin_around hl hr, omitWhere_around hspace hl hr, pointed_around hl hr, trim_around hl hr]

theorem parseCargoPrice_nothing {t : List Char} (h : cleaned t = []) : parseCargoPrice t = none := by
  unfold parseCargoPrice
  rw [h]
  split <;> rfl

/-- Only the cleaned text counts. -/
theorem parseCargoPrice_congr {s t : List Char} (h : cleaned s = cleaned t) :
    parseCargoPrice s = parseCargoPrice t := by
  by_cases hnil : cleaned t = []
  · rw [parseCargoPrice_nothing (h.trans hnil), parseCargoPrice_nothing hnil]
  · have ht : t ≠ [] := fun heq => hnil (by rw [heq]; rfl)
    have hs : s ≠ [] := fun heq => hnil (h.symm.trans (by rw [heq]; rfl))
    unfold parseCargoPrice
    rw [if_neg hs, if_neg ht, h]

/-- A bare amount, or the price of the text. -/
theorem readAmount_eq (t : List Char) : readAmount t =
    if (latin t).filter (fun c => !isAmountFiller c) ≠ [] ∧
        ((latin t).filter fun c => !isAmountFiller c).all Char.isDigit = true then
      safeAmount (rounded (numberOf ⟨(latin t).filter fun c => !isAmountFiller c, []⟩)) .toman
    else (parseCargoPrice t).bind fun price => safeAmount price.amount price.currency := by
  by_cases ht : t = []
  · subst ht
    rfl
  · unfold readAmount
    rw [if_neg ht]

theorem readAmount_trim (t : List Char) : readAmount (trim t) = readAmount t := by
  obtain ⟨l, r, hl, hr, ht⟩ := trim_split t
  have hfiller : ∀ u, Blank u → (u.filter fun c => !isAmountFiller c) = [] := fun u hu =>
    List.filter_eq_nil_iff.mpr fun c hc => by simp [isAmountFiller, hu c hc]
  have hclean : (latin t).filter (fun c => !isAmountFiller c) =
      (latin (trim t)).filter fun c => !isAmountFiller c := by
    nth_rewrite 1 [ht]
    rw [latin_around hl hr, List.filter_append, List.filter_append, hfiller l hl, hfiller r hr,
      List.nil_append, List.append_nil]
  have hcleaned : cleaned t = cleaned (trim t) := by
    nth_rewrite 1 [ht]
    exact cleaned_around hl hr (trim t)
  rw [readAmount_eq, readAmount_eq, hclean, parseCargoPrice_congr hcleaned]

theorem weightValue_around (hl : Blank l) (hr : Blank r) (t : List Char) :
    weightValue (l ++ (t ++ r)) = weightValue t := by
  have hfigure := firstFigure_around hl hr t
  unfold weightValue
  cases hfirst : firstFigure t with
  | none =>
      rw [hfirst, Option.map_none, Option.map_eq_none_iff] at hfigure
      rw [hfigure]
      dsimp only
      rw [occurs_around tonPattern_spaceless hl hr, occurs_around kiloPattern_spaceless hl hr,
        wordsValue_around hl hr]
  | some found =>
      rw [hfirst, Option.map_some] at hfigure
      obtain ⟨found', hfound', hsame⟩ := Option.map_eq_some_iff.mp hfigure
      rw [hfound']
      dsimp only
      rw [hsame]

theorem readWeight_nil (unit : WeightUnit) : readWeight [] unit = none := if_pos rfl

theorem readWeight_trim (t : List Char) (unit : WeightUnit) : readWeight (trim t) unit = readWeight t unit := by
  obtain ⟨l, r, hl, hr, ht⟩ := trim_split t
  have hspace : ∀ c, isJsSpace c = true → (c == ',' || c == '٬') = false := by
    intro c hc
    simp [space_ne hc (d := '٬') (by decide), space_ne hc (d := ',') (by decide)]
  have hclean : withoutCommas (pointed (latin t)) = l ++ (withoutCommas (pointed (latin (trim t))) ++ r) := by
    nth_rewrite 1 [ht]
    unfold withoutCommas
    rw [latin_around hl hr, pointed_around hl hr, omitWhere_around hspace hl hr]
  by_cases hnil : trim t = []
  · -- a blank text has no figure, and no words
    have hnone : weightValue (withoutCommas (pointed (latin t))) = none := by
      rw [hclean, hnil, weightValue_around hl hr]
      decide
    have hread : readWeight t unit = none := by
      unfold readWeight
      dsimp only
      rw [hnone]
      split <;> rfl
    rw [hread, hnil, readWeight_nil]
  · have hne : t ≠ [] := fun heq => hnil (by rw [heq]; rfl)
    unfold readWeight
    rw [if_neg hnil, if_neg hne]
    dsimp only
    rw [hclean, weightValue_around hl hr, occurs_around kiloPattern_spaceless hl hr,
      occurs_around tonPattern_spaceless hl hr]

end TransportBackend.TrimmedTexts
