import TransportBackend.DigitGroups
import TransportBackend.PriceReaders

/-!
# What is read of a text that was grouped

Every reader takes separators out again, each by its own expression.  A separator that `groupDigits` put in
stands before three digits and is always taken out; it is what stands around the run that may be read in
another way than before.

* `GroupedAt`: a place of a text where separators go in;
* `omit_regrouped`: **leaving separators out of the grouped text**, for a reader that looks at three digits;
* `weight_grouped`: a weight is read as before;
* `parseCargoPrice_grouped`, `readAmount_grouped`: a price and an amount, where no Arabic comma is in the way.
-/

namespace TransportBackend.GroupedReaders

open TransportBackend.DigitGroups
open TransportBackend.MoneyTexts
open TransportBackend.PriceForms
open TransportBackend.PriceTexts
open TransportBackend.TextPatterns
open TransportBackend.TrimmedTexts
open TransportBackend.TripFareRules

/-! ### Places -/

/-- A maximal run that gets separators, with the text before it and the text behind it. -/
structure GroupedAt (text before run after : List Char) : Prop where
  split : text = before ++ (run ++ after)
  first : before.getLast?.any isAnyDigit = false
  last : after.head?.any isAnyDigit = false
  grouped : Grouped before.getLast? run after

theorem separated_head (separator c : Char) (t : List Char) : (separated separator (c :: t)).head? = some c := by
  unfold separated
  split <;> rfl

theorem regrouped_head {l : List (List Char)} (hl : Segments l) (previous : Option Char) :
    (regrouped previous l).head? = l.flatten.head? := by
  cases hl with
  | nil => rfl
  | @other c rest _ _ =>
      rw [regrouped, if_neg (not_grouped_short (by simp))]
      rfl
  | @run ds rest hne _ _ _ =>
      obtain ⟨d, ds, rfl⟩ := List.exists_cons_of_ne_nil hne
      rw [regrouped, List.flatten_cons]
      split
      · rw [List.head?_append, separated_head]
        rfl
      · rfl

theorem getLast?_append_run {ds : List Char} (hne : ds ≠ []) (before : List Char) :
    (before ++ ds).getLast? = ds.getLast? := by
  rw [List.getLast?_append]
  exact Option.or_of_isSome (by simp [hne])

/-! ### Leaving separators out -/

/-- Three digits follow, or they do not, whatever ends the run. -/
theorem threeDigits_run {ds r s : List Char} (hds : ∀ c ∈ ds, c.isDigit = true)
    (hr : r.head?.any Char.isDigit = false) (hs : s.head?.any Char.isDigit = false) :
    threeDigits (ds ++ r) = threeDigits (ds ++ s) := by
  have hout : ∀ t : List Char, t.head?.any Char.isDigit = false →
      threeDigits t = false ∧ (∀ a, threeDigits (a :: t) = false) ∧ ∀ a b, threeDigits (a :: b :: t) = false := by
    intro t ht
    rcases t with _ | ⟨c, t⟩
    · exact ⟨rfl, fun _ => rfl, fun _ _ => rfl⟩
    · have hc : c.isDigit = false := ht
      refine ⟨?_, fun a => ?_, fun a b => ?_⟩
      · rcases t with _ | ⟨d, _ | ⟨e, t⟩⟩ <;> simp [threeDigits, hc]
      · rcases t with _ | ⟨d, t⟩ <;> simp [threeDigits, hc]
      · simp [threeDigits, hc]
  rcases ds with _ | ⟨a, _ | ⟨b, _ | ⟨c, ds⟩⟩⟩
  · rw [List.nil_append, List.nil_append, (hout r hr).1, (hout s hs).1]
  · exact ((hout r hr).2.1 a).trans ((hout s hs).2.1 a).symm
  · exact ((hout r hr).2.2 a b).trans ((hout s hs).2.2 a b).symm
  · rfl

theorem threeDigits_of_three {ds : List Char} (hds : ∀ c ∈ ds, c.isDigit = true) (hlong : 3 ≤ ds.length)
    (r : List Char) : threeDigits (ds ++ r) = true := by
  rcases ds with _ | ⟨a, _ | ⟨b, _ | ⟨c, ds⟩⟩⟩
  · simp at hlong
  · simp at hlong
  · simp at hlong
  · simp [threeDigits, hds a (by simp), hds b (by simp), hds c (by simp)]

/-- What is no digit stays. -/
theorem latinDigit_other {c : Char} (hc : isAnyDigit c = false) : latinDigit c = c := by
  have hten : ∀ k < 10, (Char.ofNat (k + 48)).isDigit = true := by decide
  unfold isAnyDigit at hc
  unfold latinDigit at hc ⊢
  split at hc
  · rw [hten _ (by omega)] at hc
    cases hc
  · rename_i hpersian
    rw [if_neg hpersian]
    split at hc
    · rw [hten _ (by omega)] at hc
      cases hc
    · rename_i harabic
      rw [if_neg harabic]

theorem head_latin {t : List Char} : (latin t).head?.any Char.isDigit = t.head?.any isAnyDigit := by
  cases t <;> rfl

section Omit

variable {separator : Char → Bool} (hdigit : ∀ c : Char, c.isDigit = true → separator c = false)

/-- A separator before three digits. -/
abbrev omits (separator : Char → Bool) : List Char → List Char :=
  omitWhere fun c t => separator c && threeDigits t

theorem omits_cons (separator : Char → Bool) (c : Char) (t : List Char) : omits separator (c :: t) =
    if separator c && threeDigits t then omits separator t else c :: omits separator t := rfl

include hdigit in
theorem omits_digits {ds : List Char} (h : ∀ c ∈ ds, c.isDigit = true) (r : List Char) :
    omits separator (ds ++ r) = ds ++ omits separator r :=
  omitWhere_append fun c hc t => by rw [hdigit c (h c hc), Bool.false_and]

include hdigit in
/-- The triples of a run lose their separators. -/
theorem omits_triples {c : Char} (hc : separator c = true) {triples : List (List Char)}
    (hlength : ∀ g ∈ triples, g.length = 3) (hdigits : ∀ g ∈ triples, ∀ c ∈ g, c.isDigit = true) (r : List Char) :
    omits separator (triples.flatMap (c :: ·) ++ r) = triples.flatten ++ omits separator r := by
  induction triples with
  | nil => rfl
  | cons g triples ih =>
      have hg := hdigits g List.mem_cons_self
      have hthree : threeDigits (g ++ (triples.flatMap (c :: ·) ++ r)) = true :=
        threeDigits_of_three hg (hlength g List.mem_cons_self).ge _
      have hout : omits separator (c :: (g ++ (triples.flatMap (c :: ·) ++ r))) =
          omits separator (g ++ (triples.flatMap (c :: ·) ++ r)) := by
        rw [omits_cons, hc, hthree]
        rfl
      rw [List.flatMap_cons, List.append_assoc, List.cons_append, hout, omits_digits hdigit hg,
        ih (fun a ha => hlength a (List.mem_cons_of_mem g ha)) (fun a ha => hdigits a (List.mem_cons_of_mem g ha)),
        List.flatten_cons, List.append_assoc]

/-- The digits of a grouped run. -/
theorem latin_separated {run : List Char} (hne : run ≠ []) (hrun : ∀ c ∈ run, isAnyDigit c = true) :
    ∃ (head : List Char) (triples : List (List Char)), (head ≠ [] ∧ head.length ≤ 3) ∧
      ((∀ c ∈ head, c.isDigit = true) ∧ ∀ g ∈ triples, ∀ c ∈ g, c.isDigit = true) ∧
      (∀ g ∈ triples, g.length = 3) ∧ latin run = head ++ triples.flatten ∧
      latin (separated (separatorOf run) run) = head ++ triples.flatMap (separatorOf run :: ·) := by
  obtain ⟨head, triples, ⟨hhead, hshort⟩, hlength, heq, hshown⟩ := separated_thousands (separatorOf run) hne
  have hall : ∀ c ∈ head ++ triples.flatten, isAnyDigit c = true := heq ▸ hrun
  have hkept : latinDigit (separatorOf run) = separatorOf run := by
    rcases separatorOf_cases run with h | h <;> rw [h] <;> decide
  refine ⟨latin head, triples.map latin, ⟨fun h => hhead (List.map_eq_nil_iff.mp h), ?_⟩, ⟨?_, ?_⟩, ?_, ?_, ?_⟩
  · rw [latin, List.length_map]
    exact hshort
  · exact isDigit_latin fun c hc => hall c (List.mem_append_left _ hc)
  · intro g hg
    obtain ⟨g, hmem, rfl⟩ := List.mem_map.mp hg
    exact isDigit_latin fun c hc => hall c (List.mem_append_right _ (List.mem_flatten.mpr ⟨g, hmem, hc⟩))
  · intro g hg
    obtain ⟨g, hmem, rfl⟩ := List.mem_map.mp hg
    rw [latin, List.length_map]
    exact hlength g hmem
  · rw [heq, latin_append]
    congr 1
    exact List.map_flatten
  · rw [hshown, latin_append]
    congr 1
    unfold latin
    rw [List.map_flatMap, List.flatMap_map]
    refine List.flatMap_congr fun g _ => ?_
    rw [List.map_cons, hkept]

/-- In front of three digits or not: grouping makes no difference before a run that is not grouped, or whose
first group is whole. -/
theorem threeDigits_regrouped {previous : Option Char} {l : List (List Char)} (hl : Segments l)
    (hsafe : ∀ run rest, l = run :: rest → Grouped previous run rest.flatten → 3 ∣ run.length) :
    threeDigits (latin (regrouped previous l)) = threeDigits (latin l.flatten) := by
  cases hl with
  | nil => rfl
  | @other c rest hc _ =>
      have hnot : ∀ t, threeDigits (latin (c :: t)) = false := by
        intro t
        have hhead : (latin (c :: t)).head?.any Char.isDigit = false := by rw [head_latin]; exact hc
        have hrun : threeDigits ([] ++ latin (c :: t)) = threeDigits ([] ++ []) := threeDigits_run (by simp) hhead rfl
        exact hrun
      rw [regrouped, if_neg (not_grouped_short (by simp)), List.flatten_cons]
      exact (hnot _).trans (hnot _).symm
  | @run ds rest hne hds hend hrest =>
      have hdigits := isDigit_latin hds
      rw [regrouped, List.flatten_cons]
      by_cases hgroup : Grouped previous ds rest.flatten
      · obtain ⟨head, triples, ⟨hhead, hshort⟩, ⟨hheads, _⟩, hlength, heq, hshown⟩ := latin_separated hne hds
        have hthree := hsafe ds rest rfl hgroup
        have hfull : head.length = 3 := by
          have hflat : triples.flatten.length = 3 * triples.length := by
            rw [List.length_flatten, List.map_congr_left hlength, List.map_const', List.sum_replicate, smul_eq_mul,
              mul_comm]
          have htotal : ds.length = head.length + 3 * triples.length := by
            have h := congrArg List.length heq
            rwa [latin, List.length_map, List.length_append, hflat] at h
          have hpos : 0 < head.length := List.length_pos_of_ne_nil hhead
          omega
        rw [if_pos hgroup, latin_append, latin_append, hshown, heq, List.append_assoc, List.append_assoc,
          threeDigits_of_three hheads hfull.ge, threeDigits_of_three hheads hfull.ge]
      · rw [if_neg hgroup, latin_append, latin_append]
        refine threeDigits_run hdigits ?_ ?_
        · rw [head_latin, regrouped_head hrest, hend]
        · rw [head_latin, hend]

variable {text : List Char}

include hdigit in
/-- **Leaving separators out of the grouped text** gives what leaving them out of the text gives, where no such
separator stands right before a run whose first group is not whole. -/
theorem omit_regrouped (hcomma : separator ',' = true ∧ separator '٬' = true)
    (hsafe : ∀ before run after, GroupedAt text before run after →
      before.getLast?.any separator = true → 3 ∣ run.length)
    {l : List (List Char)} (hl : Segments l) {before : List Char} (htext : text = before ++ l.flatten)
    (hbefore : before.getLast?.any isAnyDigit = true → l.flatten.head?.any isAnyDigit = false) :
    omits separator (latin (regrouped before.getLast? l)) = omits separator (latin l.flatten) := by
  induction hl generalizing before with
  | nil => rfl
  | @other c rest hc hrest ih =>
      have hlast : (before ++ [c]).getLast? = some c := by rw [List.getLast?_append]; rfl
      have hnext : omits separator (latin (regrouped (some c) rest)) = omits separator (latin rest.flatten) := by
        rw [← hlast]
        refine ih (by rw [htext, List.flatten_cons, List.append_assoc]) fun h => ?_
        rw [hlast] at h
        rw [show isAnyDigit c = true from h] at hc
        cases hc
      have hlook : separator c = true →
          threeDigits (latin (regrouped (some c) rest)) = threeDigits (latin rest.flatten) := by
        intro hsep
        refine threeDigits_regrouped hrest fun run rest' hrun hgroup => ?_
        refine hsafe (before ++ [c]) run rest'.flatten ⟨?_, ?_, ?_, ?_⟩ (by rw [hlast]; exact hsep)
        · rw [htext, hrun, List.flatten_cons, List.flatten_cons, List.append_assoc]
        · rw [hlast]
          exact hc
        · rw [hrun] at hrest
          cases hrest with
          | other hc' _ => exact absurd hgroup.1.1 (by simp)
          | run _ _ hend _ => exact hend
        · rw [hlast]
          exact hgroup
      rw [regrouped, if_neg (not_grouped_short (by simp)), List.flatten_cons]
      show omits separator (latinDigit c :: latin (regrouped (some c) rest)) =
        omits separator (latinDigit c :: latin rest.flatten)
      rw [latinDigit_other hc, omits_cons, omits_cons, hnext]
      cases hsep : separator c with
      | false => rfl
      | true => rw [hlook hsep]
  | @run ds rest hne hds hend hrest ih =>
      have hlast : (before ++ ds).getLast? = ds.getLast? := getLast?_append_run hne before
      have hnext : omits separator (latin (regrouped ds.getLast? rest)) = omits separator (latin rest.flatten) := by
        rw [← hlast]
        exact ih (by rw [htext, List.flatten_cons, List.append_assoc]) fun _ => hend
      rw [regrouped, List.flatten_cons, latin_append, latin_append, omits_digits hdigit (isDigit_latin hds), ← hnext]
      split
      · obtain ⟨head, triples, _, ⟨hheads, htriples⟩, hlength, heq, hshown⟩ := latin_separated hne hds
        have hsep : separator (separatorOf ds) = true := by
          rcases separatorOf_cases ds with h | h <;> rw [h]
          · exact hcomma.1
          · exact hcomma.2
        rw [hshown, heq, List.append_assoc, omits_digits hdigit hheads, omits_triples hdigit hsep hlength htriples,
          List.append_assoc]
      · exact omits_digits hdigit (isDigit_latin hds) _

end Omit

theorem omits_grouped (separator : Char → Bool) (hdigit : ∀ c : Char, c.isDigit = true → separator c = false)
    (hcomma : separator ',' = true ∧ separator '٬' = true) {text : List Char}
    (hsafe : ∀ before run after, GroupedAt text before run after →
      before.getLast?.any separator = true → 3 ∣ run.length) :
    omits separator (latin (groupDigits text)) = omits separator (latin text) := by
  have htext : text = [] ++ (segments text).flatten := (flatten_segments text).symm
  have h : omits separator (latin (regrouped none (segments text))) =
      omits separator (latin (segments text).flatten) :=
    omit_regrouped hdigit hcomma hsafe (segments_segments text) htext fun h => absurd h Bool.false_ne_true
  rwa [← groupDigits_eq, flatten_segments] at h

theorem groupDigits_head (text : List Char) : (groupDigits text).head? = text.head? := by
  rw [groupDigits_eq, regrouped_head (segments_segments text), flatten_segments]

theorem groupDigits_nil {text : List Char} : groupDigits text = [] ↔ text = [] := by
  rw [← List.head?_eq_none_iff, groupDigits_head, List.head?_eq_none_iff]

/-! ### Weights -/

/-- No comma stands right before a run that is grouped. -/
theorem not_grouped_comma {text before run after : List Char} (h : GroupedAt text before run after) :
    before.getLast?.any (fun c => c == ',' || c == '٬') = false := by
  have hmarks := h.grouped.2.2.1
  cases hlast : before.getLast? with
  | none => rfl
  | some c =>
      rw [hlast] at hmarks
      have hno : c ∉ marks := by simpa using hmarks
      show (c == ',' || c == '٬') = false
      rw [Bool.or_eq_false_iff, beq_eq_false_iff_ne, beq_eq_false_iff_ne]
      constructor <;> rintro rfl <;> exact hno (by decide)

theorem threeDigits_pointed (t : List Char) : threeDigits (pointed t) = threeDigits t := by
  have hpoint : ∀ c : Char, (if c == '٫' then '.' else c).isDigit = c.isDigit := by
    intro c
    by_cases hc : c = '٫'
    · subst hc
      decide
    · rw [if_neg (by simpa using hc)]
  rcases t with _ | ⟨a, _ | ⟨b, _ | ⟨c, t⟩⟩⟩
  · rfl
  · rfl
  · rfl
  · simp only [pointed, List.map_cons, threeDigits, hpoint]

/-- Points and commas do not meet. -/
theorem withoutCommas_pointed (t : List Char) : withoutCommas (pointed t) = pointed (withoutCommas t) := by
  have hcomma : ∀ c : Char, ((if c == '٫' then '.' else c) == ',' || (if c == '٫' then '.' else c) == '٬') =
      (c == ',' || c == '٬') := by
    intro c
    by_cases hc : c = '٫'
    · subst hc
      decide
    · rw [if_neg (by simpa using hc)]
  induction t with
  | nil => rfl
  | cons c t ih =>
      show (if ((if c == '٫' then '.' else c) == ',' || (if c == '٫' then '.' else c) == '٬') &&
          threeDigits (pointed t) then withoutCommas (pointed t) else _ :: withoutCommas (pointed t)) =
        pointed (if (c == ',' || c == '٬') && threeDigits t then withoutCommas t else c :: withoutCommas t)
      rw [hcomma, threeDigits_pointed, ih]
      split <;> rfl

/-- **A weight is read as before**, whatever the text. -/
theorem weight_grouped (text : List Char) (unit : WeightUnit) :
    readWeight (groupDigits text) unit = readWeight text unit := by
  by_cases hnil : text = []
  · rw [hnil]
    rfl
  · have hclean : withoutCommas (latin (groupDigits text)) = withoutCommas (latin text) := by
      refine omits_grouped (fun c => c == ',' || c == '٬') (fun c hc => ?_) ⟨rfl, rfl⟩ ?_
      · have h := digit_not_separator hc
        rw [Bool.or_eq_false_iff] at h
        rw [Bool.or_comm]
        exact h.1
      · intro before run after hat hcomma
        rw [not_grouped_comma hat] at hcomma
        cases hcomma
    unfold readWeight
    rw [if_neg hnil, if_neg fun h => hnil (groupDigits_nil.mp h), withoutCommas_pointed, withoutCommas_pointed, hclean]

/-! ### Amounts -/

/-- No Arabic comma stands right before a run that is grouped, unless its first group is whole. -/
def CommaSafe (text : List Char) : Prop :=
  ∀ before run after, GroupedAt text before run after → before.getLast? = some '،' → 3 ∣ run.length

theorem cleaned_grouped {text : List Char} (h : CommaSafe text) : cleaned (groupDigits text) = cleaned text := by
  have hsafe : withoutSeparators (latin (groupDigits text)) = withoutSeparators (latin text) := by
    refine omits_grouped (fun c => c == '٬' || c == ',' || c == '،')
      (fun c hc => digit_not_separator hc) ⟨rfl, rfl⟩ fun before run after hat hany => ?_
    have hcomma := not_grouped_comma hat
    cases hlast : before.getLast? with
    | none =>
        rw [hlast] at hany
        cases hany
    | some c =>
        rw [hlast] at hany hcomma
        have hc : (c == ',' || c == '٬') = false := hcomma
        have hany : (c == '٬' || c == ',' || c == '،') = true := hany
        rw [Bool.or_comm (c == '٬'), hc, Bool.false_or, beq_iff_eq] at hany
        exact h before run after hat (by rw [hlast, hany])
  unfold cleaned
  rw [hsafe]

theorem parseCargoPrice_grouped {text : List Char} (h : CommaSafe text) :
    parseCargoPrice (groupDigits text) = parseCargoPrice text := parseCargoPrice_congr (cleaned_grouped h)

theorem filter_triples {keep : Char → Bool} {separator : Char} (hsep : keep separator = false)
    (triples : List (List Char)) :
    (triples.flatMap (separator :: ·)).filter keep = triples.flatten.filter keep := by
  induction triples with
  | nil => rfl
  | cons g triples ih =>
      rw [List.flatMap_cons, List.flatten_cons, List.filter_append, List.filter_append, ih,
        List.filter_cons_of_neg (by rw [hsep]; exact Bool.false_ne_true)]

/-- Where separators are left out anyway, grouping makes no difference. -/
theorem filter_regrouped (keep : Char → Bool) (hkeep : keep ',' = false ∧ keep '٬' = false)
    {l : List (List Char)} (hl : Segments l) (previous : Option Char) :
    (latin (regrouped previous l)).filter keep = (latin l.flatten).filter keep := by
  induction hl generalizing previous with
  | nil => rfl
  | @other c rest _ _ ih =>
      rw [regrouped, if_neg (not_grouped_short (by simp)), List.flatten_cons, latin_append, latin_append,
        List.filter_append, List.filter_append, List.getLast?_singleton, ih]
  | @run ds rest hne hds _ _ ih =>
      have hrun : (latin (separated (separatorOf ds) ds)).filter keep = (latin ds).filter keep := by
        obtain ⟨head, triples, _, _, _, heq, hshown⟩ := latin_separated hne hds
        have hsep : keep (separatorOf ds) = false := by
          rcases separatorOf_cases ds with h | h <;> rw [h]
          · exact hkeep.1
          · exact hkeep.2
        rw [hshown, heq, List.filter_append, List.filter_append, filter_triples hsep]
      rw [regrouped, List.flatten_cons, latin_append, latin_append, List.filter_append, List.filter_append, ih]
      congr 1
      split
      · exact hrun
      · rfl

theorem readAmount_grouped {text : List Char} (h : CommaSafe text) :
    readAmount (groupDigits text) = readAmount text := by
  have hfilter : (latin (groupDigits text)).filter (fun c => !isAmountFiller c) =
      (latin text).filter fun c => !isAmountFiller c := by
    have h := filter_regrouped (fun c => !isAmountFiller c) ⟨by decide, by decide⟩
      (segments_segments text) none
    rwa [← groupDigits_eq, flatten_segments] at h
  rw [readAmount_eq, readAmount_eq, hfilter, parseCargoPrice_grouped h]

end TransportBackend.GroupedReaders
