import TransportBackend.PersianNumberWords

/-!
# What number words mean

A word of a scale closes the number before it, any other word adds to it.  Read so, the words of a number below
10¹² mean that number; the speller has no word for what is larger and leaves it out.

* `readWords`: the number of a list of words, for any tables;
* `Falls`: words each of which means less than the word before it, up to the name of a scale;
* `Tables`: tables that have the numerals and the first scales right;
* `readWords_spelledWords`: **the words of a number mean the number**, up to the scales that are known;
* `words_distinct_iff`: **when two numbers are read aloud differently**;
* `not_words_distinct`: 10¹² is not read aloud at all.
-/

namespace TransportBackend.NumberWordValues

open TransportBackend.Binary64
open TransportBackend.PersianNumberWords
open TransportBackend.PriceTexts

/-! ### Reading -/

section Reading

variable {W : Type} (unit : W → ℕ) (scale : W → Option ℕ)

/-- A word of a scale closes the number before it, one if there is none; any other word adds to it. -/
def readStep (state : ℕ × ℕ) (w : W) : ℕ × ℕ :=
  match scale w with
  | some s => (state.1 + (if state.2 = 0 then 1 else state.2) * s, 0)
  | none => (state.1, state.2 + unit w)

def readFrom (state : ℕ × ℕ) (ws : List W) : ℕ × ℕ := ws.foldl (readStep unit scale) state

/-- The number of a list of words. -/
def readWords (ws : List W) : ℕ := (readFrom unit scale (0, 0) ws).1 + (readFrom unit scale (0, 0) ws).2

theorem readFrom_append (state : ℕ × ℕ) (a b : List W) :
    readFrom unit scale state (a ++ b) = readFrom unit scale (readFrom unit scale state a) b := List.foldl_append

variable {unit scale}

theorem readFrom_units {ws : List W} (h : ∀ w ∈ ws, scale w = none) (state : ℕ × ℕ) :
    readFrom unit scale state ws = (state.1, state.2 + (ws.map unit).sum) := by
  induction ws generalizing state with
  | nil => simp [readFrom]
  | cons w ws ih =>
      have hstep : readStep unit scale state w = (state.1, state.2 + unit w) := by
        rw [readStep, h w List.mem_cons_self]
      have hrest := ih (fun v hv => h v (List.mem_cons_of_mem w hv)) (state.1, state.2 + unit w)
      rw [readFrom, List.foldl_cons, hstep]
      refine hrest.trans ?_
      rw [List.map_cons, List.sum_cons]
      simp only [Nat.add_assoc]

theorem readFrom_scale {w : W} {s : ℕ} (h : scale w = some s) (state : ℕ × ℕ) :
    readFrom unit scale state [w] = (state.1 + (if state.2 = 0 then 1 else state.2) * s, 0) := by
  show readStep unit scale state w = _
  rw [readStep, h]

/-- Reading on never lowers a number. -/
theorem readFrom_ge (hscale : ∀ w s, scale w = some s → 0 < s) (ws : List W) (state : ℕ × ℕ) :
    state.1 + state.2 ≤ (readFrom unit scale state ws).1 + (readFrom unit scale state ws).2 := by
  induction ws generalizing state with
  | nil => exact Nat.le_refl _
  | cons w ws ih =>
      refine Nat.le_trans ?_ (ih (readStep unit scale state w))
      unfold readStep
      cases hw : scale w with
      | none =>
          show state.1 + state.2 ≤ state.1 + (state.2 + unit w)
          omega
      | some s =>
          show state.1 + state.2 ≤ state.1 + (if state.2 = 0 then 1 else state.2) * s + 0
          have hs := hscale w s hw
          have hkept : state.2 ≤ (if state.2 = 0 then 1 else state.2) * s := by
            split
            · omega
            · exact Nat.le_mul_of_pos_right _ hs
          omega

/-! ### Numbers that fall -/

variable (unit scale)

/-- Every word means less than the word before it, unless that was the name of a scale. -/
def Falls : Option ℕ → List W → Prop
  | _, [] => True
  | last, w :: ws =>
      match scale w with
      | some _ => Falls none ws
      | none => (∀ v ∈ last, unit w < v) ∧ Falls (some (unit w)) ws

variable {unit scale}

theorem falls_unit {w : W} (h : scale w = none) (last : Option ℕ) (ws : List W) :
    Falls unit scale last (w :: ws) ↔ (∀ v ∈ last, unit w < v) ∧ Falls unit scale (some (unit w)) ws := by
  rw [Falls, h]

theorem falls_scale {w : W} {s : ℕ} (h : scale w = some s) (last : Option ℕ) (ws : List W) :
    Falls unit scale last (w :: ws) ↔ Falls unit scale none ws := by
  rw [Falls, h]

/-- After the name of a scale any number may come. -/
theorem Falls.append_scale {a b : List W} {last : Option ℕ} (ha : Falls unit scale last a) {w : W} {s : ℕ}
    (hw : scale w = some s) (hb : Falls unit scale none b) : Falls unit scale last (a ++ w :: b) := by
  induction a generalizing last with
  | nil => exact (falls_scale hw last b).mpr hb
  | cons v a ih =>
      rw [List.cons_append]
      cases hv : scale v with
      | some t =>
          rw [falls_scale hv] at ha ⊢
          exact ih ha
      | none =>
          rw [falls_unit hv] at ha ⊢
          exact ⟨ha.1, ih ha.2⟩

end Reading

/-! ### Tables -/

/-- The words below 1000 mean what they mean, and the first `known` scales are scales. -/
structure Tables (unit : List Char → ℕ) (scale : List Char → Option ℕ) (known : ℕ) : Prop where
  ones : ∀ i < 10, 0 < i → unit (ones.getD i []) = i
  teens : ∀ i < 10, unit (teens.getD i []) = 10 + i
  tens : ∀ i < 10, 2 ≤ i → unit (tens.getD i []) = 10 * i
  hundreds : ∀ i < 10, 0 < i → unit (hundreds.getD i []) = 100 * i
  numerals : ∀ w ∈ numerals, scale w = none
  scales : ∀ i < known, 0 < i → scale (scales.getD i []) = some (1000 ^ i)

section Values

variable {unit : List Char → ℕ} {scale : List Char → Option ℕ} {known : ℕ} (h : Tables unit scale known)
include h

theorem sum_parts {n : ℕ} (hn : n < 1000) : ((parts n).map unit).sum = n := by
  have hhundreds : ((if n ≥ 100 then [hundreds.getD (n / 100) []] else []).map unit).sum = 100 * (n / 100) := by
    split
    · exact (Nat.add_zero _).trans (h.hundreds _ (by omega) (by omega))
    · show 0 = _
      omega
  have htens : ((if n % 100 ≥ 20 then [tens.getD (n % 100 / 10) []] else []).map unit).sum =
      if n % 100 ≥ 20 then 10 * (n % 100 / 10) else 0 := by
    split
    · exact (Nat.add_zero _).trans (h.tens _ (by omega) (by omega))
    · rfl
  have hones : ((if n % 100 % 10 ≠ 0 then [ones.getD (n % 100 % 10) []] else []).map unit).sum = n % 10 := by
    split
    · refine (Nat.add_zero _).trans ((h.ones _ (by omega) (by omega)).trans ?_)
      omega
    · show 0 = _
      omega
  unfold parts
  rw [List.map_append, List.sum_append, hhundreds]
  split
  · have hteen : (([teens.getD (n % 100 - 10) []]).map unit).sum = 10 + (n % 100 - 10) :=
      (Nat.add_zero _).trans (h.teens _ (by omega))
    rw [hteen]
    omega
  · rw [List.map_append, List.sum_append, htens, hones]
    split <;> omega

theorem readFrom_parts {n : ℕ} (hn : n < 1000) (total : ℕ) :
    readFrom unit scale (total, 0) (parts n) = (total, n) := by
  rw [readFrom_units (fun w hw => h.numerals w (parts_numerals hn w hw)), sum_parts h hn]
  simp

/-- A group adds its value to the total. -/
theorem readFrom_group {i group : ℕ} (hpos : 0 < i) (hi : i < known) (hne : group ≠ 0) (hgroup : group < 1000)
    (total : ℕ) : readFrom unit scale (total, 0) (groupWords i group) = (total + group * 1000 ^ i, 0) := by
  unfold groupWords
  by_cases hone : i = 1 ∧ group = 1
  · obtain ⟨rfl, rfl⟩ := hone
    rw [if_pos ⟨rfl, rfl⟩]
    exact readFrom_scale (h.scales 1 hi hpos) (total, 0)
  · rw [if_neg hone, if_neg (by omega), readFrom_append, readFrom_parts h hgroup, readFrom_scale (h.scales i hi hpos)]
    dsimp only
    rw [if_neg hne]

theorem readFrom_spelledWords {i : ℕ} (hi : i ≤ known) (n total : ℕ) :
    (readFrom unit scale (total, 0) (spelledWords i n)).1 + (readFrom unit scale (total, 0) (spelledWords i n)).2 =
      total + n % 1000 ^ i := by
  induction i generalizing total with
  | zero =>
      show total + 0 = _
      rw [Nat.pow_zero, Nat.mod_one]
  | succ i ih =>
      have hgroup := groupAt_lt n i
      have hsplit : n % 1000 ^ (i + 1) = n % 1000 ^ i + 1000 ^ i * groupAt n i := Nat.mod_pow_succ
      rw [spelledWords, readFrom_append, hsplit]
      by_cases hzero : groupAt n i = 0
      · rw [if_pos hzero, hzero]
        exact ih (by omega) total
      · rw [if_neg hzero]
        rcases Nat.eq_zero_or_pos i with rfl | hpos
        · have hwords : groupWords 0 (groupAt n 0) = parts (groupAt n 0) := by
            unfold groupWords
            rw [if_neg (by omega), if_pos rfl, List.append_nil]
          rw [hwords, readFrom_parts h hgroup]
          show total + groupAt n 0 = _
          rw [Nat.pow_zero, Nat.mod_one]
          omega
        · rw [readFrom_group h hpos (by omega) hzero hgroup, ih (by omega), Nat.mul_comm]
          omega

/-- **The words of a number mean the number**, up to the scales that are known. -/
theorem readWords_spelledWords (n : ℕ) : readWords unit scale (spelledWords known n) = n % 1000 ^ known := by
  unfold readWords
  rw [readFrom_spelledWords h (Nat.le_refl known) n 0, Nat.zero_add]

/-- The parts of a number below 1000 fall. -/
theorem falls_parts {n : ℕ} (hn : n < 1000) : Falls unit scale none (parts n) := by
  obtain ⟨hones, hteens, htens, hhundreds⟩ := mem_numerals
  have hnil : ∀ last, Falls unit scale last ([] : List (List Char)) := fun _ => trivial
  have hone : ∀ last, (∀ v ∈ last, n % 10 < v) →
      Falls unit scale last (if n % 100 % 10 ≠ 0 then [ones.getD (n % 100 % 10) []] else []) := by
    intro last hlast
    split
    · rename_i hpos
      rw [falls_unit (h.numerals _ (hones _ (by omega) (by omega))), h.ones _ (by omega) (by omega)]
      exact ⟨fun v hv => by have := hlast v hv; omega, hnil _⟩
    · exact hnil last
  have hten : ∀ last, (∀ v ∈ last, n % 100 < v) →
      Falls unit scale last ((if n % 100 ≥ 20 then [tens.getD (n % 100 / 10) []] else []) ++
        if n % 100 % 10 ≠ 0 then [ones.getD (n % 100 % 10) []] else []) := by
    intro last hlast
    split
    · rw [List.singleton_append, falls_unit (h.numerals _ (htens _ (by omega) (by omega))),
        h.tens _ (by omega) (by omega)]
      refine ⟨fun v hv => by have := hlast v hv; omega, hone _ fun v hv => ?_⟩
      have hv : 10 * (n % 100 / 10) = v := Option.some.inj hv
      omega
    · exact hone last fun v hv => by have := hlast v hv; omega
  have hrest : ∀ last, (∀ v ∈ last, n % 100 < v) →
      Falls unit scale last (if n % 100 ≥ 10 ∧ n % 100 < 20 then [teens.getD (n % 100 - 10) []]
        else (if n % 100 ≥ 20 then [tens.getD (n % 100 / 10) []] else []) ++
          if n % 100 % 10 ≠ 0 then [ones.getD (n % 100 % 10) []] else []) := by
    intro last hlast
    split
    · rw [falls_unit (h.numerals _ (hteens _ (by omega))), h.teens _ (by omega)]
      exact ⟨fun v hv => by have := hlast v hv; omega, hnil _⟩
    · exact hten last hlast
  unfold parts
  split
  · rw [List.singleton_append, falls_unit (h.numerals _ (hhundreds _ (by omega) (by omega))),
      h.hundreds _ (by omega) (by omega)]
    refine ⟨fun v hv => (Option.not_mem_none v hv).elim, hrest _ fun v hv => ?_⟩
    have hv : 100 * (n / 100) = v := Option.some.inj hv
    omega
  · exact hrest none fun v hv => (Option.not_mem_none v hv).elim

/-- **The words of a number fall**, from one scale to the next. -/
theorem falls_spelledWords {i : ℕ} (hi : i ≤ known) (n : ℕ) : Falls unit scale none (spelledWords i n) := by
  induction i with
  | zero => trivial
  | succ i ih =>
      have hrest := ih (by omega)
      rw [spelledWords]
      split
      · exact hrest
      · rcases Nat.eq_zero_or_pos i with rfl | hpos
        · have hwords : groupWords 0 (groupAt n 0) = parts (groupAt n 0) := by
            unfold groupWords
            rw [if_neg (by omega), if_pos rfl, List.append_nil]
          rw [hwords]
          exact (List.append_nil (parts (groupAt n 0))).symm ▸ falls_parts h (groupAt_lt n 0)
        · unfold groupWords
          split
          · exact (falls_scale (h.scales 1 (by omega) (by omega)) none _).mpr hrest
          · rw [if_neg (by omega), List.append_assoc]
            exact (falls_parts h (groupAt_lt n i)).append_scale (h.scales i (by omega) hpos) hrest

end Values

/-! ### The tables of the speller -/

/-- The words of the tables with their numbers. -/
def wordTable : List (List Char × ℕ) :=
  ones.zipIdx ++ teens.zipIdx 10 ++ tens.zipIdx.map (fun entry => (entry.1, 10 * entry.2)) ++
    hundreds.zipIdx.map fun entry => (entry.1, 100 * entry.2)

def wordValue (w : List Char) : ℕ := (wordTable.lookup w).getD 0

def scaleValue (w : List Char) : Option ℕ := (scales.zipIdx.tail.lookup w).map (1000 ^ ·)

theorem tables_spelled : Tables wordValue scaleValue 4 where
  ones := by decide
  teens := by decide
  tens := by decide
  hundreds := by decide
  numerals := by decide
  scales := by decide

/-- The words of a text, without what joins them. -/
def wordsOf (text : List Char) : List (List Char) := (text.splitOn ' ').filter (· ≠ joiner)

theorem splitOn_spaced {tokens : List (List Char)} (hne : tokens ≠ []) (h : ∀ w ∈ tokens, ' ' ∉ w) :
    (spaced tokens).splitOn ' ' = tokens := List.splitOn_intercalate ' ' h hne

/-- **What is read of the text of a number** is the number, up to the largest scale. -/
theorem read_text {n : ℕ} (hn : n ≠ 0) (hspelled : n % 1000 ^ 4 ≠ 0) :
    readWords wordValue scaleValue (wordsOf (integerToPersianWords (n : ℤ))) = n % 1000 ^ 4 := by
  have hne : spelledTokens 4 n ≠ [] := fun h => hspelled (spelledTokens_nil.mp h)
  unfold wordsOf
  rw [integerToPersianWords_spaced hn,
    splitOn_spaced hne fun w hw => (token_plain (mem_spelledTokens (Nat.le_refl 4) hw)).2,
    filter_spelledTokens (Nat.le_refl 4), readWords_spelledWords tables_spelled]

/-! ### Which numbers sound alike -/

theorem words_zero : integerToPersianWords 0 = zero := rfl

/-- A number has words unless all its groups up to the largest scale are zero. -/
theorem words_nil {n : ℕ} : integerToPersianWords (n : ℤ) = [] ↔ n ≠ 0 ∧ n % 1000 ^ 4 = 0 := by
  by_cases hn : n = 0
  · subst hn
    simp [words_zero, zero]
  · rw [integerToPersianWords_spaced hn, ← spelledTokens_nil]
    constructor
    · intro hnil
      refine ⟨hn, ?_⟩
      by_contra hne
      exact spaced_ne_nil hne (fun w hw => (token_plain (mem_spelledTokens (Nat.le_refl 4) hw)).1) hnil
    · intro ⟨_, hnil⟩
      rw [hnil]
      rfl

/-- What is read of any text that is not empty. -/
theorem read_words {n : ℕ} (hne : integerToPersianWords (n : ℤ) ≠ []) :
    readWords wordValue scaleValue (wordsOf (integerToPersianWords (n : ℤ))) = n % 1000 ^ 4 := by
  by_cases hn : n = 0
  · subst hn
    decide
  · exact read_text hn fun hzero => hne (words_nil.mpr ⟨hn, hzero⟩)

/-- The groups up to a scale are those of the digits below it. -/
theorem groupList_congr {scale m n : ℕ} (h : m % 1000 ^ scale = n % 1000 ^ scale) :
    groupList scale m = groupList scale n := by
  induction scale with
  | zero => rfl
  | succ scale ih =>
      rw [Nat.pow_succ] at h
      have hgroup : ∀ k, k % (1000 ^ scale * 1000) / 1000 ^ scale = groupAt k scale := fun k =>
        Nat.mod_mul_right_div_self k (1000 ^ scale) 1000
      have hlower : ∀ k, k % (1000 ^ scale * 1000) % 1000 ^ scale = k % 1000 ^ scale := fun k =>
        Nat.mod_mul_right_mod k (1000 ^ scale) 1000
      rw [groupList, groupList, ← hgroup m, ← hgroup n, h, ih (by rw [← hlower m, ← hlower n, h])]

/-- **Two numbers are read aloud differently, and both are read**, if and only if the larger has digits below
10¹², the smaller has some too or is zero, and they are not the same digits. -/
theorem words_distinct_iff {m n : ℕ} (hmn : m < n) :
    (integerToPersianWords (m : ℤ) ≠ [] ∧ integerToPersianWords (n : ℤ) ≠ [] ∧
        integerToPersianWords (m : ℤ) ≠ integerToPersianWords (n : ℤ)) ↔
      n % 10 ^ 12 ≠ 0 ∧ (m = 0 ∨ m % 10 ^ 12 ≠ 0) ∧ m % 10 ^ 12 ≠ n % 10 ^ 12 := by
  have hpow : (1000 : ℕ) ^ 4 = 10 ^ 12 := by norm_num
  have hm : integerToPersianWords (m : ℤ) ≠ [] ↔ m = 0 ∨ m % 10 ^ 12 ≠ 0 := by
    rw [Ne, words_nil, hpow, not_and_or, not_not]
  have hn : integerToPersianWords (n : ℤ) ≠ [] ↔ n % 10 ^ 12 ≠ 0 := by
    rw [Ne, words_nil, hpow, not_and_or, not_not]
    exact or_iff_right (by omega)
  rw [hm, hn]
  constructor
  · rintro ⟨hsmall, hlarge, hne⟩
    refine ⟨hlarge, hsmall, fun hsame => hne ?_⟩
    have hpos : m ≠ 0 := by
      rintro rfl
      exact hlarge (by rw [← hsame, Nat.zero_mod])
    rw [integerToPersianWords_spaced hpos, integerToPersianWords_spaced (by omega), spelledTokens, spelledTokens,
      groupList_congr (hpow ▸ hsame)]
  · rintro ⟨hlarge, hsmall, hdigits⟩
    refine ⟨hsmall, hlarge, fun hsame => hdigits ?_⟩
    rw [← hpow, ← read_words (hm.mpr hsmall), ← read_words (hn.mpr hlarge), hsame]

theorem words_distinct_iff_thousands :
    (integerToPersianWords ((1000 : ℕ) : ℤ) ≠ [] ∧ integerToPersianWords ((1000000 : ℕ) : ℤ) ≠ [] ∧
        integerToPersianWords ((1000 : ℕ) : ℤ) ≠ integerToPersianWords ((1000000 : ℕ) : ℤ)) ↔
      1000000 % 10 ^ 12 ≠ 0 ∧ (1000 = 0 ∨ 1000 % 10 ^ 12 ≠ 0) ∧ 1000 % 10 ^ 12 ≠ 1000000 % 10 ^ 12 :=
  words_distinct_iff (by omega)

/-- A thousand milliards is not read at all, and what is above it is read as what is left. -/
theorem not_words_distinct :
    (integerToPersianWords ((10 ^ 12 : ℕ) : ℤ) = [] ∧
      integerToPersianWords ((10 ^ 12 + 5 : ℕ) : ℤ) = integerToPersianWords ((5 : ℕ) : ℤ)) ∧
    ¬∀ m n : ℕ, m < n → n ≤ maxSafeInteger → integerToPersianWords (m : ℤ) ≠ [] ∧
      integerToPersianWords (n : ℤ) ≠ [] ∧ integerToPersianWords (m : ℤ) ≠ integerToPersianWords (n : ℤ) := by
  have hnone : integerToPersianWords ((10 ^ 12 : ℕ) : ℤ) = [] := by decide
  refine ⟨⟨hnone, by decide⟩, fun hall => ?_⟩
  exact (hall 5 (10 ^ 12) (by norm_num) (by decide)).2.1 hnone

end TransportBackend.NumberWordValues
