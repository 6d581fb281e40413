import TransportBackend.SpokenDistances
import TransportBackend.SpokenNumbers
import Mathlib.Data.List.Sort

/-!
# The code that was said

`matchSpokenCode` of `spokenCodes.ts`: every number of the text is compared with the digits of every code the
user may mean, and the nearest codes of the nearest number are what was said.

* `scoredFor`: the codes that are near enough to a number, the nearest first;
* `closest`: the first of the numbers whose nearest code is nearest;
* `matchSpokenCode`: one code if it is clearly the nearest, at most three otherwise;
* `code_found`: **a code said in words is found**, first, and alone where no other code is near.
-/

namespace TransportBackend.SpokenMatches

open TransportBackend.EditDistance
open TransportBackend.MoneyTexts
open TransportBackend.PersianNumberWords
open TransportBackend.PriceTexts
open TransportBackend.SpokenDistances
open TransportBackend.SpokenNumbers

structure CodeCandidate where
  code : List Char
  label : Option (List Char)
  deriving DecidableEq

structure ResolvedCode where
  span : List Char
  options : List CodeCandidate
  deriving DecidableEq

def maxDistance : ℚ := 3 / 2

def minMargin : ℚ := 1

def maxOptions : ℕ := 3

/-! ### The nearest codes -/

/-- A code and how far it is from what was said. -/
structure Scored where
  candidate : CodeCandidate
  distance : ℚ

/-- `replace(/\D/g, '')`. -/
def digitsIn (code : List Char) : List Char := code.filter Char.isDigit

/-- The distance of a code from the nearest of the readings; no distance if it has no digits. -/
def distanceTo (readings : List (List Char)) (code : List Char) : WithTop ℚ :=
  if digitsIn code = [] then ⊤
  else (readings.map fun reading =>
    ((digitDistance (unitsOf reading) (unitsOf (digitsIn code)) : ℚ) : WithTop ℚ)).foldr min ⊤

/-- A code that is near enough. -/
def scored (readings : List (List Char)) (candidate : CodeCandidate) : Option Scored :=
  (distanceTo readings candidate.code).bind fun distance =>
    if distance ≤ maxDistance then some ⟨candidate, distance⟩ else none

/-- The order of the codes: those that are as near keep theirs. -/
def Nearer (a b : Scored) : Prop := a.distance ≤ b.distance

instance : DecidableRel Nearer := fun a b => inferInstanceAs (Decidable (a.distance ≤ b.distance))

instance : Std.Total Nearer := ⟨fun a b => le_total a.distance b.distance⟩

instance : IsTrans Scored Nearer := ⟨fun _ _ _ hab hbc => le_trans hab hbc⟩

def scoredFor (readings : List (List Char)) (candidates : List CodeCandidate) : List Scored :=
  (candidates.filterMap (scored readings)).insertionSort Nearer

section Closest

variable {β : Type}

/-- A number replaces the best one if its nearest code is nearer. -/
def better (best : Option (β × List Scored)) (number : β × List Scored) : Option (β × List Scored) :=
  match number.2.head?, best with
  | none, _ => best
  | some _, none => some number
  | some first, some held => if held.2.head?.any (fun top => first.distance < top.distance) then some number else best

/-- The first of the numbers whose nearest code is nearest. -/
def closest (numbers : List (β × List Scored)) : Option (β × List Scored) := numbers.foldl better none

end Closest

/-- One code if the next is clearly farther, otherwise at most three that are not. -/
def optionsOf : List Scored → List CodeCandidate
  | [] => []
  | [first] => [first.candidate]
  | first :: second :: rest =>
      if minMargin ≤ second.distance - first.distance then [first.candidate]
      else (((first :: second :: rest).filter fun item => item.distance - first.distance < minMargin).take
        maxOptions).map Scored.candidate

def matchSpokenCode (text : List Char) (candidates : List CodeCandidate) : Option ResolvedCode :=
  if candidates = [] then none
  else
    (closest ((spokenNumbers text).map fun number => (number.span, scoredFor number.readings candidates))).map
      fun best => ⟨best.1, optionsOf best.2⟩

/-! ### A code that was said -/

theorem unit_digit {c : Char} (hc : c.isDigit = true) :
    Char.ofNat (UInt16.ofNat c.toNat).toNat = c ∧ isHighSurrogate (UInt16.ofNat c.toNat) = false := by
  rcases digit_cases hc with h | h | h | h | h | h | h | h | h | h <;> rw [h] <;> decide

theorem unitsOf_digits {s t : List Char} (hs : ∀ c ∈ s, c.isDigit = true) (ht : ∀ c ∈ t, c.isDigit = true)
    (h : unitsOf s = unitsOf t) : s = t := by
  have hback : ∀ l : List Char, (∀ c ∈ l, c.isDigit = true) →
      (unitsOf l).map (fun u => Char.ofNat u.toNat) = l := by
    intro l hl
    unfold unitsOf
    rw [List.map_map]
    exact (List.map_congr_left fun c hc => (unit_digit (hl c hc)).1).trans (List.map_id _)
  rw [← hback s hs, h, hback t ht]

theorem noPairs_digits {s : List Char} (hs : ∀ c ∈ s, c.isDigit = true) : NoPairs (unitsOf s) := by
  induction s with
  | nil => exact .nil
  | cons c s ih =>
      have hrest := ih fun d hd => hs d (List.mem_cons_of_mem c hd)
      cases s with
      | nil => exact .singleton _
      | cons d s =>
          refine List.isChain_cons_cons.mpr ⟨?_, hrest⟩
          rw [(unit_digit (hs c List.mem_cons_self)).2]
          rfl

theorem digitsIn_digits (code : List Char) : ∀ c ∈ digitsIn code, c.isDigit = true :=
  fun _ hc => (List.mem_filter.mp hc).2

/-- The distance between two texts of digits. -/
def digitsApart (heard code : List Char) : ℚ := digitDistance (unitsOf heard) (unitsOf code)

theorem digitsApart_eq (heard : List Char) {code : List Char} (h : ∀ c ∈ code, c.isDigit = true) :
    digitsApart heard code = editCost digitGap digitSwap (unitsOf heard) (unitsOf code) :=
  digitDistance_eq _ (noPairs_digits h)

theorem digitsApart_nonneg (heard : List Char) {code : List Char} (h : ∀ c ∈ code, c.isDigit = true) :
    0 ≤ digitsApart heard code := by
  rw [digitsApart_eq heard h]
  exact editCost_nonneg costs_digits _ _

/-- **Only the same figure is at no distance.** -/
theorem digitsApart_zero {heard code : List Char} (hheard : ∀ c ∈ heard, c.isDigit = true)
    (hcode : ∀ c ∈ code, c.isDigit = true) : digitsApart heard code = 0 ↔ heard = code := by
  rw [digitsApart_eq heard hcode, editCost_eq_zero costs_digits]
  constructor
  · exact unitsOf_digits hheard hcode
  · rintro rfl
    rfl

section Single

variable {heard : List Char} (hdigits : ∀ c ∈ heard, c.isDigit = true)

theorem distanceTo_single {code : List Char} (hcode : digitsIn code ≠ []) :
    distanceTo [heard] code = ((digitsApart heard (digitsIn code) : ℚ) : WithTop ℚ) := by
  unfold distanceTo
  rw [if_neg hcode]
  exact min_top_right _

/-- What is known of a code that is near enough. -/
theorem scored_single {candidate : CodeCandidate} {item : Scored} (h : scored [heard] candidate = some item) :
    item.candidate = candidate ∧ item.distance = digitsApart heard (digitsIn candidate.code) := by
  unfold scored at h
  by_cases hcode : digitsIn candidate.code = []
  · unfold distanceTo at h
    rw [if_pos hcode] at h
    cases h
  · rw [distanceTo_single hcode] at h
    have h : (if digitsApart heard (digitsIn candidate.code) ≤ maxDistance then
        some (Scored.mk candidate (digitsApart heard (digitsIn candidate.code))) else none) = some item := h
    split at h
    · obtain rfl := Option.some.inj h
      exact ⟨rfl, rfl⟩
    · cases h

include hdigits in
/-- The code that was said is at no distance. -/
theorem scored_said {candidate : CodeCandidate} (hne : heard ≠ []) (h : digitsIn candidate.code = heard) :
    scored [heard] candidate = some ⟨candidate, 0⟩ := by
  have hcode : digitsIn candidate.code ≠ [] := by
    rw [h]
    exact hne
  have hzero : digitsApart heard (digitsIn candidate.code) = 0 := by
    rw [h]
    exact (digitsApart_zero hdigits hdigits).mpr rfl
  unfold scored
  rw [distanceTo_single hcode, hzero]
  exact if_pos (by unfold maxDistance; norm_num)

end Single

/-- The nearest code comes first. -/
theorem scoredFor_first {readings : List (List Char)} {candidates : List CodeCandidate} {first : Scored}
    {rest : List Scored} (h : scoredFor readings candidates = first :: rest) {candidate : CodeCandidate} {item : Scored}
    (hmem : candidate ∈ candidates) (hitem : scored readings candidate = some item) :
    first.distance ≤ item.distance := by
  have hsorted := List.pairwise_insertionSort Nearer (candidates.filterMap (scored readings))
  have hin : item ∈ first :: rest := by
    rw [← h]
    exact (List.mem_insertionSort Nearer).mpr (List.mem_filterMap.mpr ⟨candidate, hmem, hitem⟩)
  have hpair : (first :: rest).Pairwise Nearer := h ▸ hsorted
  rcases List.mem_cons.mp hin with rfl | hin
  · exact le_refl _
  · exact List.rel_of_pairwise_cons hpair hin

theorem mem_scoredFor {readings : List (List Char)} {candidates : List CodeCandidate} {item : Scored}
    (h : item ∈ scoredFor readings candidates) : ∃ candidate ∈ candidates, scored readings candidate = some item :=
  List.mem_filterMap.mp ((List.mem_insertionSort Nearer).mp h)

/-- A single number is the best one, if any code is near enough to it. -/
theorem matchSpokenCode_single {text span : List Char} {readings : List (List Char)}
    (hnumbers : spokenNumbers text = [⟨span, readings⟩]) {candidates : List CodeCandidate} {first : Scored}
    {rest : List Scored} (hscored : scoredFor readings candidates = first :: rest) :
    matchSpokenCode text candidates = some ⟨span, optionsOf (first :: rest)⟩ := by
  have hne : candidates ≠ [] := by
    rintro rfl
    cases hscored
  unfold matchSpokenCode
  rw [if_neg hne, hnumbers, List.map_singleton, hscored]
  rfl

/-- The first option is the nearest code. -/
theorem optionsOf_first (first : Scored) (rest : List Scored) :
    ∃ more, optionsOf (first :: rest) = first.candidate :: more := by
  cases rest with
  | nil => exact ⟨[], rfl⟩
  | cons second rest =>
      rw [optionsOf]
      split
      · exact ⟨[], rfl⟩
      · have hkeep : decide (first.distance - first.distance < minMargin) = true := by
          rw [sub_self]
          exact decide_eq_true (by unfold minMargin; norm_num)
        rw [List.filter_cons, if_pos hkeep]
        exact ⟨_, rfl⟩

/-- A code with the digits of a number that was said is the first option. -/
theorem said_first {text span : List Char} {n : ℕ} (hnumbers : spokenNumbers text = [⟨span, [digitsOf n]⟩])
    {candidates : List CodeCandidate} (hsaid : ∃ c ∈ candidates, digitsIn c.code = digitsOf n) :
    ∃ first more, matchSpokenCode text candidates = some ⟨span, first :: more⟩ ∧
      digitsIn first.code = digitsOf n := by
  obtain ⟨c, hmem, hdigits⟩ := hsaid
  have hitem := scored_said (isDigit_digitsOf) (digitsOf_ne_nil n) hdigits
  cases hscored : scoredFor [digitsOf n] candidates with
  | nil =>
      have hin : (⟨c, 0⟩ : Scored) ∈ scoredFor [digitsOf n] candidates :=
        (List.mem_insertionSort Nearer).mpr (List.mem_filterMap.mpr ⟨c, hmem, hitem⟩)
      rw [hscored] at hin
      exact absurd hin List.not_mem_nil
  | cons first rest =>
      obtain ⟨more, hoptions⟩ := optionsOf_first first rest
      obtain ⟨d, _, hd⟩ := mem_scoredFor (hscored ▸ List.mem_cons_self)
      obtain ⟨rfl, hdistance⟩ := scored_single hd
      refine ⟨first.candidate, more, ?_, ?_⟩
      · rw [matchSpokenCode_single hnumbers hscored, hoptions]
      · have hle : first.distance ≤ 0 := scoredFor_first hscored hmem hitem
        have hnonneg := digitsApart_nonneg (digitsOf n) (digitsIn_digits first.candidate.code)
        refine ((digitsApart_zero (isDigit_digitsOf) (digitsIn_digits _)).mp ?_).symm
        rw [← hdistance] at hnonneg ⊢
        exact le_antisymm hle hnonneg

/-- Where every other code is far, it is the only option. -/
theorem said_alone {text span : List Char} {n : ℕ} (hnumbers : spokenNumbers text = [⟨span, [digitsOf n]⟩])
    {before after : List CodeCandidate} {c : CodeCandidate} (hdigits : digitsIn c.code = digitsOf n)
    (hfar : ∀ d ∈ before ++ after, 1 ≤ digitsApart (digitsOf n) (digitsIn d.code)) :
    matchSpokenCode text (before ++ c :: after) = some ⟨span, [c]⟩ := by
  have hitem := scored_said (isDigit_digitsOf) (digitsOf_ne_nil n) hdigits
  have hmem : c ∈ before ++ c :: after := by simp
  have hsplit : (before ++ c :: after).filterMap (scored [digitsOf n]) =
      before.filterMap (scored [digitsOf n]) ++ ⟨c, 0⟩ :: after.filterMap (scored [digitsOf n]) := by
    rw [List.filterMap_append, List.filterMap_cons, hitem]
  have hperm : (scoredFor [digitsOf n] (before ++ c :: after)).Perm
      (⟨c, 0⟩ :: (before ++ after).filterMap (scored [digitsOf n])) := by
    unfold scoredFor
    rw [hsplit, List.filterMap_append]
    exact (List.perm_insertionSort Nearer _).trans List.perm_middle
  have hothers : ∀ item ∈ (before ++ after).filterMap (scored [digitsOf n]), 1 ≤ item.distance := by
    intro item hitem
    obtain ⟨d, hd, hscored⟩ := List.mem_filterMap.mp hitem
    rw [(scored_single hscored).2]
    exact hfar d hd
  cases hscored : scoredFor [digitsOf n] (before ++ c :: after) with
  | nil =>
      rw [hscored] at hperm
      exact absurd hperm.length_eq (by simp)
  | cons first rest =>
      rw [hscored] at hperm
      have hle : first.distance ≤ 0 := scoredFor_first hscored hmem hitem
      have hfirst : first = ⟨c, 0⟩ := by
        rcases List.mem_cons.mp (hperm.mem_iff.mp List.mem_cons_self) with h | h
        · exact h
        · have hone := hothers first h
          linarith
      have hrest : rest.Perm ((before ++ after).filterMap (scored [digitsOf n])) := by
        rw [hfirst] at hperm
        exact hperm.cons_inv
      rw [matchSpokenCode_single hnumbers hscored, hfirst]
      congr 2
      cases rest with
      | nil => rfl
      | cons second rest =>
          have hone := hothers second (hrest.mem_iff.mp List.mem_cons_self)
          rw [optionsOf, if_pos (by unfold minMargin; linarith)]

/-- **A code said in words is found.**  A number below 10⁹ in words is one run with one reading, a code with its
digits is the first option, and it is the only one if the digits of every other code are at distance one or more. -/
theorem code_found {n : ℕ} (hn : n < 10 ^ 9) (candidates : List CodeCandidate) :
    spokenNumbers (integerToPersianWords (n : ℤ)) = [⟨integerToPersianWords (n : ℤ), [digitsOf n]⟩] ∧
    ((∃ c ∈ candidates, digitsIn c.code = digitsOf n) → ∃ first more,
      matchSpokenCode (integerToPersianWords (n : ℤ)) candidates =
        some ⟨integerToPersianWords (n : ℤ), first :: more⟩ ∧ digitsIn first.code = digitsOf n) ∧
    ∀ before c after, candidates = before ++ c :: after → digitsIn c.code = digitsOf n →
      (∀ d ∈ before ++ after, 1 ≤ digitsApart (digitsOf n) (digitsIn d.code)) →
      matchSpokenCode (integerToPersianWords (n : ℤ)) candidates =
        some ⟨integerToPersianWords (n : ℤ), [c]⟩ := by
  have hnumbers := spokenNumbers_number hn
  refine ⟨hnumbers, said_first hnumbers, ?_⟩
  rintro before c after rfl hdigits hfar
  exact said_alone hnumbers hdigits hfar

theorem code_found_hundredThousandNine :
    spokenNumbers (integerToPersianWords ((100009 : ℕ) : ℤ)) =
      [⟨integerToPersianWords ((100009 : ℕ) : ℤ), [digitsOf 100009]⟩] ∧
    matchSpokenCode (integerToPersianWords ((100009 : ℕ) : ℤ))
        [⟨['T', 'R', 'B', '2', '5'], none⟩, ⟨['T', 'R', 'B', '1', '0', '0', '0', '0', '9'], none⟩] =
      some ⟨integerToPersianWords ((100009 : ℕ) : ℤ), [⟨['T', 'R', 'B', '1', '0', '0', '0', '0', '9'], none⟩]⟩ := by
  obtain ⟨hnumbers, _, halone⟩ := code_found (show 100009 < 10 ^ 9 by norm_num)
    [⟨['T', 'R', 'B', '2', '5'], none⟩, ⟨['T', 'R', 'B', '1', '0', '0', '0', '0', '9'], none⟩]
  refine ⟨hnumbers, halone [⟨['T', 'R', 'B', '2', '5'], none⟩] _ [] rfl (by decide) ?_⟩
  decide +kernel

end TransportBackend.SpokenMatches
