import TransportBackend.PriceTexts

/-!
# Numbers in words

`persianNumberWords.ts`: a whole number is spelled in groups of three digits, from the largest.

* `integerToPersianWords`: the text, from tables of ones, tens, hundreds and scales;
* `spelledWords`, `spelledTokens`: the words of a number, without and with what joins them;
* `groupsLoop_texts`: the loop over the scales, group by group;
* `integerToPersianWords_spaced`: **the text of a number is its words with spaces between them**.
-/

namespace TransportBackend.PersianNumberWords

open TransportBackend.PriceTexts

/-! ### The tables -/

def ones : List (List Char) :=
  [[], ['ی', 'ک'], ['د', 'و'], ['س', 'ه'], ['چ', 'ه', 'ا', 'ر'], ['پ', 'ن', 'ج'], ['ش', 'ش'], ['ه', 'ف', 'ت'],
    ['ه', 'ش', 'ت'], ['ن', 'ه']]

def teens : List (List Char) :=
  [['د', 'ه'], ['ی', 'ا', 'ز', 'د', 'ه'], ['د', 'و', 'ا', 'ز', 'د', 'ه'], ['س', 'ی', 'ز', 'د', 'ه'],
    ['چ', 'ه', 'ا', 'ر', 'د', 'ه'], ['پ', 'ا', 'ن', 'ز', 'د', 'ه'], ['ش', 'ا', 'ن', 'ز', 'د', 'ه'],
    ['ه', 'ف', 'د', 'ه'], ['ه', 'ج', 'د', 'ه'], ['ن', 'و', 'ز', 'د', 'ه']]

def tens : List (List Char) :=
  [[], [], ['ب', 'ی', 'س', 'ت'], ['س', 'ی'], ['چ', 'ه', 'ل'], ['پ', 'ن', 'ج', 'ا', 'ه'], ['ش', 'ص', 'ت'],
    ['ه', 'ف', 'ت', 'ا', 'د'], ['ه', 'ش', 'ت', 'ا', 'د'], ['ن', 'و', 'د']]

def hundreds : List (List Char) :=
  [[], ['ص', 'د'], ['د', 'و', 'ی', 'س', 'ت'], ['س', 'ی', 'ص', 'د'], ['چ', 'ه', 'ا', 'ر', 'ص', 'د'],
    ['پ', 'ا', 'ن', 'ص', 'د'], ['ش', 'ش', 'ص', 'د'], ['ه', 'ف', 'ت', 'ص', 'د'], ['ه', 'ش', 'ت', 'ص', 'د'],
    ['ن', 'ه', 'ص', 'د']]

def scales : List (List Char) := [[], thousand, million, milliard]

def zero : List Char := ['ص', 'ف', 'ر']

/-- The word between two parts. -/
def joiner : List Char := ['و']

/-! ### The speller -/

/-- `parts` of `belowThousand`. -/
def parts (n : ℕ) : List (List Char) :=
  let rest := n % 100
  (if n ≥ 100 then [hundreds.getD (n / 100) []] else []) ++
    if rest ≥ 10 ∧ rest < 20 then [teens.getD (rest - 10) []]
    else
      (if rest ≥ 20 then [tens.getD (rest / 10) []] else []) ++
        if rest % 10 ≠ 0 then [ones.getD (rest % 10) []] else []

/-- `join(' و ')`. -/
def joinedWords (texts : List (List Char)) : List Char := [' ', 'و', ' '].intercalate texts

def belowThousand (n : ℕ) : List Char := joinedWords (parts n)

/-- A group of three digits: «هزار», not «یک هزار». -/
def groupText (scale group : ℕ) : List Char :=
  if scale = 1 ∧ group = 1 then scales.getD 1 []
  else [' '].intercalate ([belowThousand group, scales.getD scale []].filter (· ≠ []))

/-- The loop over the scales: as many of them are left as the first argument says. -/
def groupsLoop : ℕ → ℕ → ℕ → List (List Char) → List (List Char)
  | 0, _, _, groups => groups
  | left + 1, scale, n, groups =>
      if n > 0 then
        groupsLoop left (scale + 1) (n / 1000)
          (if n % 1000 ≠ 0 then groupText scale (n % 1000) :: groups else groups)
      else groups

/-- A whole number in words. -/
def integerToPersianWords (value : ℤ) : List Char :=
  let n := value.natAbs
  if n = 0 then zero else joinedWords (groupsLoop scales.length 0 n [])

example : String.ofList (integerToPersianWords 1250) = "هزار و دویست و پنجاه" := by decide

/-! ### The words of a number -/

/-- The words of a group, without what joins them. -/
def groupWords (scale group : ℕ) : List (List Char) :=
  if scale = 1 ∧ group = 1 then [thousand] else parts group ++ if scale = 0 then [] else [scales.getD scale []]

/-- The group of a scale. -/
def groupAt (n scale : ℕ) : ℕ := n / 1000 ^ scale % 1000

theorem groupAt_lt (n scale : ℕ) : groupAt n scale < 1000 := Nat.mod_lt _ (by omega)

/-- The words of the groups up to a scale, from the largest. -/
def spelledWords : ℕ → ℕ → List (List Char)
  | 0, _ => []
  | scale + 1, n => (if groupAt n scale = 0 then [] else groupWords scale (groupAt n scale)) ++ spelledWords scale n

/-- The words with what joins them. -/
def joinedTokens (groups : List (List (List Char))) : List (List Char) := [joiner].intercalate groups

def groupTokens (scale group : ℕ) : List (List Char) :=
  if scale = 1 ∧ group = 1 then [thousand]
  else joinedTokens ((parts group).map ([·])) ++ if scale = 0 then [] else [scales.getD scale []]

/-- The groups up to a scale that are spelled. -/
def groupList : ℕ → ℕ → List (List (List Char))
  | 0, _ => []
  | scale + 1, n =>
      (if groupAt n scale = 0 then [] else [groupTokens scale (groupAt n scale)]) ++ groupList scale n

/-- The words of a number as they stand in its text. -/
def spelledTokens (scale n : ℕ) : List (List Char) := joinedTokens (groupList scale n)

def spaced (tokens : List (List Char)) : List Char := [' '].intercalate tokens

theorem spaced_cons (w : List Char) {ws : List (List Char)} (h : ws ≠ []) :
    spaced (w :: ws) = w ++ ' ' :: spaced ws := by
  obtain ⟨v, ws, rfl⟩ := List.exists_cons_of_ne_nil h
  exact List.intercalate_cons_cons.trans (List.append_assoc _ _ _)

theorem spaced_append {a b : List (List Char)} (ha : a ≠ []) (hb : b ≠ []) :
    spaced (a ++ b) = spaced a ++ ' ' :: spaced b := by
  induction a with
  | nil => exact absurd rfl ha
  | cons w a ih =>
      by_cases hnil : a = []
      · subst hnil
        rw [List.singleton_append, spaced_cons w hb]
        congr 1
        exact (List.intercalate_singleton).symm
      · rw [List.cons_append, spaced_cons w (by simp [hb]), ih hnil, spaced_cons w hnil, List.append_assoc,
          List.cons_append]

/-- Tokens with a space behind each. -/
def frontText (front : List (List Char)) : List Char := front.flatMap fun w => w ++ [' ']

/-- What stands before tokens is their front. -/
theorem spaced_front (front : List (List Char)) {ws : List (List Char)} (hne : ws ≠ []) :
    spaced (front ++ ws) = frontText front ++ spaced ws := by
  induction front with
  | nil => rfl
  | cons w front ih =>
      have hcons : frontText (w :: front) = w ++ [' '] ++ frontText front := rfl
      rw [List.cons_append, spaced_cons w (by simp [hne]), ih, hcons]
      simp

theorem joinedTokens_cons (group : List (List Char)) {groups : List (List (List Char))} (h : groups ≠ []) :
    joinedTokens (group :: groups) = group ++ joiner :: joinedTokens groups := by
  obtain ⟨next, groups, rfl⟩ := List.exists_cons_of_ne_nil h
  exact List.intercalate_cons_cons.trans (List.append_assoc _ _ _)

theorem joinedTokens_singleton (group : List (List Char)) : joinedTokens [group] = group := List.intercalate_singleton

theorem joinedTokens_ne_nil {groups : List (List (List Char))} (hne : groups ≠ [])
    (h : ∀ group ∈ groups, group ≠ []) : joinedTokens groups ≠ [] := by
  obtain ⟨group, groups, rfl⟩ := List.exists_cons_of_ne_nil hne
  have hgroup := h group List.mem_cons_self
  by_cases hnil : groups = []
  · rw [hnil, joinedTokens_singleton]
    exact hgroup
  · rw [joinedTokens_cons group hnil]
    simp

/-- Parts joined by «و» are tokens joined by spaces. -/
theorem joinedWords_spaced {groups : List (List (List Char))} (h : ∀ group ∈ groups, group ≠ []) :
    joinedWords (groups.map spaced) = spaced (joinedTokens groups) := by
  induction groups with
  | nil => rfl
  | cons group groups ih =>
      have hgroup := h group List.mem_cons_self
      have hrest : ∀ g ∈ groups, g ≠ [] := fun g hg => h g (List.mem_cons_of_mem group hg)
      by_cases hnil : groups = []
      · subst hnil
        rw [joinedTokens_singleton]
        exact List.intercalate_singleton
      · obtain ⟨next, rest, hcons⟩ := List.exists_cons_of_ne_nil hnil
        have hjoined : joinedWords (spaced group :: groups.map spaced) =
            spaced group ++ [' ', 'و', ' '] ++ joinedWords (groups.map spaced) := by
          rw [hcons, List.map_cons]
          exact List.intercalate_cons_cons
        have htail := joinedTokens_ne_nil hnil hrest
        rw [List.map_cons, hjoined, ih hrest, joinedTokens_cons group hnil, spaced_append hgroup (List.cons_ne_nil _ _),
          spaced_cons joiner htail, List.append_assoc]
        rfl

/-- Without what joins them. -/
theorem filter_joinedTokens (groups : List (List (List Char))) :
    (joinedTokens groups).filter (· ≠ joiner) = groups.flatMap fun group => group.filter (· ≠ joiner) := by
  induction groups with
  | nil => rfl
  | cons group groups ih =>
      by_cases hnil : groups = []
      · rw [hnil, joinedTokens_singleton]
        simp
      · rw [joinedTokens_cons group hnil, List.filter_append, List.filter_cons_of_neg (by simp), ih, List.flatMap_cons]

/-! ### Parts -/

/-- The words of the numbers below 1000. -/
def numerals : List (List Char) := ones.tail ++ teens ++ tens.drop 2 ++ hundreds.tail

theorem mem_numerals :
    (∀ i < 10, 0 < i → ones.getD i [] ∈ numerals) ∧ (∀ i < 10, teens.getD i [] ∈ numerals) ∧
      (∀ i < 10, 2 ≤ i → tens.getD i [] ∈ numerals) ∧ ∀ i < 10, 0 < i → hundreds.getD i [] ∈ numerals := by
  decide

theorem parts_numerals {n : ℕ} (hn : n < 1000) : ∀ w ∈ parts n, w ∈ numerals := by
  obtain ⟨hones, hteens, htens, hhundreds⟩ := mem_numerals
  intro w hw
  unfold parts at hw
  rcases List.mem_append.mp hw with hw | hw
  · split at hw
    · rw [List.mem_singleton.mp hw]
      exact hhundreds _ (by omega) (by omega)
    · exact absurd hw List.not_mem_nil
  · split at hw
    · rw [List.mem_singleton.mp hw]
      exact hteens _ (by omega)
    · rcases List.mem_append.mp hw with hw | hw
      · split at hw
        · rw [List.mem_singleton.mp hw]
          exact htens _ (by omega) (by omega)
        · exact absurd hw List.not_mem_nil
      · split at hw
        · rw [List.mem_singleton.mp hw]
          exact hones _ (by omega) (by omega)
        · exact absurd hw List.not_mem_nil

/-- A number of at most three digits has a part, unless it is zero. -/
theorem parts_ne_nil {n : ℕ} (hn : n ≠ 0) : parts n ≠ [] := by
  intro hnil
  unfold parts at hnil
  obtain ⟨hhundred, hrest⟩ := List.append_eq_nil_iff.mp hnil
  have hlow : ¬n ≥ 100 := fun h => by
    rw [if_pos h] at hhundred
    cases hhundred
  split at hrest
  · cases hrest
  · obtain ⟨hten, hone⟩ := List.append_eq_nil_iff.mp hrest
    have hten : ¬n % 100 ≥ 20 := fun h => by
      rw [if_pos h] at hten
      cases hten
    have hone : n % 100 % 10 = 0 := by
      by_contra h
      rw [if_pos h] at hone
      cases hone
    omega

/-- No word is empty, the joiner, or holds a space. -/
theorem numerals_plain : ∀ w ∈ numerals, w ≠ [] ∧ w ≠ joiner ∧ ' ' ∉ w := by decide

theorem scales_plain : ∀ i < 4, 0 < i →
    scales.getD i [] ≠ [] ∧ scales.getD i [] ≠ joiner ∧ ' ' ∉ scales.getD i [] := by decide

/-! ### The text of a number -/

theorem groupTokens_ne_nil {scale group : ℕ} (hgroup : group ≠ 0) : groupTokens scale group ≠ [] := by
  unfold groupTokens
  split
  · exact List.cons_ne_nil _ _
  · have hparts : joinedTokens ((parts group).map ([·])) ≠ [] := by
      refine joinedTokens_ne_nil (fun h => parts_ne_nil hgroup (List.map_eq_nil_iff.mp h)) fun g hg => ?_
      obtain ⟨w, _, rfl⟩ := List.mem_map.mp hg
      exact List.cons_ne_nil _ _
    exact fun h => hparts (List.append_eq_nil_iff.mp h).1

theorem belowThousand_spaced (n : ℕ) : belowThousand n = spaced (joinedTokens ((parts n).map ([·]))) := by
  have hword : ∀ w : List Char, spaced [w] = w := fun _ => List.intercalate_singleton
  have hsingle : ((parts n).map ([·])).map spaced = parts n := by
    rw [List.map_map]
    exact (List.map_congr_left fun w _ => hword w).trans (List.map_id _)
  unfold belowThousand
  rw [← joinedWords_spaced, hsingle]
  intro g hg
  obtain ⟨w, _, rfl⟩ := List.mem_map.mp hg
  exact List.cons_ne_nil _ _

theorem spaced_ne_nil {tokens : List (List Char)} (hne : tokens ≠ []) (h : ∀ w ∈ tokens, w ≠ []) :
    spaced tokens ≠ [] := by
  obtain ⟨w, ws, rfl⟩ := List.exists_cons_of_ne_nil hne
  by_cases hnil : ws = []
  · rw [hnil]
    exact fun hspaced => h w List.mem_cons_self (List.intercalate_singleton.symm.trans hspaced)
  · rw [spaced_cons w hnil]
    simp

theorem mem_joinedTokens {groups : List (List (List Char))} {w : List Char} (h : w ∈ joinedTokens groups) :
    w = joiner ∨ ∃ group ∈ groups, w ∈ group := by
  induction groups with
  | nil => exact absurd h List.not_mem_nil
  | cons group groups ih =>
      by_cases hnil : groups = []
      · rw [hnil, joinedTokens_singleton] at h
        exact .inr ⟨group, List.mem_cons_self, h⟩
      · rw [joinedTokens_cons group hnil] at h
        rcases List.mem_append.mp h with h | h
        · exact .inr ⟨group, List.mem_cons_self, h⟩
        · rcases List.mem_cons.mp h with h | h
          · exact .inl h
          · obtain h | ⟨g, hg, hw⟩ := ih h
            · exact .inl h
            · exact .inr ⟨g, List.mem_cons_of_mem group hg, hw⟩

/-- The words of a group are numerals, the name of its scale, and joiners. -/
theorem mem_groupTokens {scale group : ℕ} (hgroup : group < 1000) (hscale : scale < 4) {w : List Char}
    (h : w ∈ groupTokens scale group) : w = joiner ∨ w ∈ numerals ∨ ∃ i < 4, 0 < i ∧ w = scales.getD i [] := by
  unfold groupTokens at h
  split at h
  · exact .inr (.inr ⟨1, by omega, by omega, List.mem_singleton.mp h⟩)
  · rcases List.mem_append.mp h with h | h
    · obtain h | ⟨g, hg, hw⟩ := mem_joinedTokens h
      · exact .inl h
      · obtain ⟨v, hv, rfl⟩ := List.mem_map.mp hg
        rw [List.mem_singleton.mp hw]
        exact .inr (.inl (parts_numerals hgroup v hv))
    · split at h
      · exact absurd h List.not_mem_nil
      · rename_i hpos
        exact .inr (.inr ⟨scale, hscale, Nat.pos_of_ne_zero hpos, List.mem_singleton.mp h⟩)

theorem token_plain {w : List Char} (h : w = joiner ∨ w ∈ numerals ∨ ∃ i < 4, 0 < i ∧ w = scales.getD i []) :
    w ≠ [] ∧ ' ' ∉ w := by
  rcases h with rfl | h | ⟨i, hi, hpos, rfl⟩
  · decide
  · exact ⟨(numerals_plain w h).1, (numerals_plain w h).2.2⟩
  · exact ⟨(scales_plain i hi hpos).1, (scales_plain i hi hpos).2.2⟩

theorem groupText_spaced {scale group : ℕ} (hne : group ≠ 0) (hgroup : group < 1000) (hscale : scale < 4) :
    groupText scale group = spaced (groupTokens scale group) := by
  unfold groupText groupTokens
  by_cases hone : scale = 1 ∧ group = 1
  · rw [if_pos hone, if_pos hone]
    exact List.intercalate_singleton.symm
  · rw [if_neg hone, if_neg hone, belowThousand_spaced]
    have htokens : joinedTokens ((parts group).map ([·])) ≠ [] := by
      refine joinedTokens_ne_nil (fun h => parts_ne_nil hne (List.map_eq_nil_iff.mp h)) fun g hg => ?_
      obtain ⟨w, _, rfl⟩ := List.mem_map.mp hg
      exact List.cons_ne_nil _ _
    have htext : spaced (joinedTokens ((parts group).map ([·]))) ≠ [] := by
      refine spaced_ne_nil htokens fun w hw => ?_
      obtain rfl | ⟨g, hg, hw⟩ := mem_joinedTokens hw
      · decide
      · obtain ⟨v, hv, rfl⟩ := List.mem_map.mp hg
        rw [List.mem_singleton.mp hw]
        exact (numerals_plain v (parts_numerals hgroup v hv)).1
    rw [List.filter_cons_of_pos (by simpa using htext)]
    by_cases hzero : scale = 0
    · subst hzero
      rw [if_pos rfl, List.append_nil]
      exact List.intercalate_singleton
    · rw [if_neg hzero, spaced_append htokens (List.cons_ne_nil _ _),
        List.filter_cons_of_pos (by simpa using (scales_plain scale hscale (Nat.pos_of_ne_zero hzero)).1)]
      refine List.intercalate_cons_cons.trans ?_
      rw [List.append_assoc]
      congr 1

/-- The texts of the groups up to a scale. -/
def groupTexts : ℕ → ℕ → List (List Char)
  | 0, _ => []
  | scale + 1, n => (if groupAt n scale = 0 then [] else [groupText scale (groupAt n scale)]) ++ groupTexts scale n

/-- From a scale on nothing is left. -/
theorem groupTexts_above {n scale : ℕ} (h : n / 1000 ^ scale = 0) (left : ℕ) :
    groupTexts (scale + left) n = groupTexts scale n := by
  induction left with
  | zero => rfl
  | succ left ih =>
      have hnone : groupAt n (scale + left) = 0 := by
        unfold groupAt
        rw [Nat.pow_add, ← Nat.div_div_eq_div_mul, h, Nat.zero_div]
      show (if groupAt n (scale + left) = 0 then [] else _) ++ groupTexts (scale + left) n = _
      rw [if_pos hnone, ih]
      rfl

/-- **The loop over the scales** has spelled the groups below the scale it is at. -/
theorem groupsLoop_texts (n left scale : ℕ) :
    groupsLoop left scale (n / 1000 ^ scale) (groupTexts scale n) = groupTexts (scale + left) n := by
  induction left generalizing scale with
  | zero => rfl
  | succ left ih =>
      rw [groupsLoop]
      by_cases hpos : n / 1000 ^ scale > 0
      · have hnext : n / 1000 ^ scale / 1000 = n / 1000 ^ (scale + 1) := by
          rw [Nat.div_div_eq_div_mul, Nat.pow_succ]
        have hgroups : (if n / 1000 ^ scale % 1000 ≠ 0 then
            groupText scale (n / 1000 ^ scale % 1000) :: groupTexts scale n else groupTexts scale n) =
            groupTexts (scale + 1) n := by
          rw [groupTexts]
          unfold groupAt
          by_cases hgroup : n / 1000 ^ scale % 1000 = 0
          · rw [if_neg (not_not.mpr hgroup), if_pos hgroup]
            rfl
          · rw [if_pos hgroup, if_neg hgroup]
            rfl
        rw [if_pos hpos, hnext, hgroups, ih, Nat.add_right_comm]
        rfl
      · rw [if_neg hpos]
        exact (groupTexts_above (Nat.eq_zero_of_not_pos hpos) (left + 1)).symm

theorem groupTexts_spaced {scale : ℕ} (hscale : scale ≤ 4) (n : ℕ) :
    groupTexts scale n = (groupList scale n).map spaced := by
  induction scale with
  | zero => rfl
  | succ scale ih =>
      rw [groupTexts, groupList, List.map_append, ih (by omega)]
      congr 1
      split
      · rfl
      · rename_i hne
        rw [groupText_spaced hne (groupAt_lt n scale) (by omega)]
        rfl

theorem mem_groupList {scale n : ℕ} {group : List (List Char)} (h : group ∈ groupList scale n) :
    ∃ i < scale, groupAt n i ≠ 0 ∧ group = groupTokens i (groupAt n i) := by
  induction scale with
  | zero => exact absurd h List.not_mem_nil
  | succ scale ih =>
      rw [groupList] at h
      rcases List.mem_append.mp h with h | h
      · split at h
        · exact absurd h List.not_mem_nil
        · rename_i hne
          exact ⟨scale, Nat.lt_succ_self scale, hne, List.mem_singleton.mp h⟩
      · obtain ⟨i, hi, hgroup⟩ := ih h
        exact ⟨i, Nat.lt_succ_of_lt hi, hgroup⟩

theorem groupList_ne_nil (scale n : ℕ) : ∀ group ∈ groupList scale n, group ≠ [] := by
  intro group h
  obtain ⟨i, _, hne, rfl⟩ := mem_groupList h
  exact groupTokens_ne_nil hne

/-- **The text of a number is its words with spaces between them.** -/
theorem integerToPersianWords_spaced {n : ℕ} (hn : n ≠ 0) :
    integerToPersianWords (n : ℤ) = spaced (spelledTokens 4 n) := by
  have hloop := groupsLoop_texts n 4 0
  rw [Nat.pow_zero, Nat.div_one] at hloop
  show (if n = 0 then zero else joinedWords (groupsLoop 4 0 n (groupTexts 0 n))) = _
  rw [if_neg hn, hloop, groupTexts_spaced (by omega), joinedWords_spaced (groupList_ne_nil _ n)]
  rfl

/-! ### Without what joins the words -/

theorem filter_groupTokens {scale group : ℕ} (hgroup : group < 1000) (hscale : scale < 4) :
    (groupTokens scale group).filter (· ≠ joiner) = groupWords scale group := by
  unfold groupTokens groupWords
  by_cases hone : scale = 1 ∧ group = 1
  · rw [if_pos hone, if_pos hone]
    rfl
  · rw [if_neg hone, if_neg hone, List.filter_append, filter_joinedTokens]
    congr 1
    · rw [List.flatMap_map]
      have hkeep : ∀ w ∈ parts group, [w].filter (· ≠ joiner) = [w] := fun w hw =>
        List.filter_cons_of_pos (by simpa using (numerals_plain w (parts_numerals hgroup w hw)).2.1)
      rw [List.flatMap_congr hkeep]
      simp
    · split
      · rfl
      · rename_i hpos
        exact List.filter_cons_of_pos (by simpa using (scales_plain scale hscale (Nat.pos_of_ne_zero hpos)).2.1)

theorem filter_spelledTokens {scale : ℕ} (hscale : scale ≤ 4) (n : ℕ) :
    (spelledTokens scale n).filter (· ≠ joiner) = spelledWords scale n := by
  unfold spelledTokens
  rw [filter_joinedTokens]
  induction scale with
  | zero => rfl
  | succ scale ih =>
      rw [groupList, spelledWords, List.flatMap_append, ih (by omega)]
      congr 1
      split
      · rfl
      · rw [List.flatMap_singleton, filter_groupTokens (groupAt_lt n scale) (by omega)]

/-- The words of a number are numerals and the names of the scales below. -/
theorem mem_spelledWords {scale n : ℕ} {w : List Char} (h : w ∈ spelledWords scale n) :
    w ∈ numerals ∨ ∃ i < scale, 0 < i ∧ w = scales.getD i [] := by
  induction scale with
  | zero => exact absurd h List.not_mem_nil
  | succ scale ih =>
      rw [spelledWords] at h
      rcases List.mem_append.mp h with h | h
      · split at h
        · exact absurd h List.not_mem_nil
        · unfold groupWords at h
          split at h
          · rename_i hone
            exact .inr ⟨1, by omega, by omega, List.mem_singleton.mp h⟩
          · rcases List.mem_append.mp h with h | h
            · exact .inl (parts_numerals (groupAt_lt n scale) w h)
            · split at h
              · exact absurd h List.not_mem_nil
              · rename_i hpos
                exact .inr ⟨scale, Nat.lt_succ_self scale, Nat.pos_of_ne_zero hpos, List.mem_singleton.mp h⟩
      · exact (ih h).imp_right fun ⟨i, hi, hscale⟩ => ⟨i, Nat.lt_succ_of_lt hi, hscale⟩

theorem mem_spelledTokens {scale : ℕ} (hscale : scale ≤ 4) {n : ℕ} {w : List Char} (h : w ∈ spelledTokens scale n) :
    w = joiner ∨ w ∈ numerals ∨ ∃ i < 4, 0 < i ∧ w = scales.getD i [] := by
  obtain h | ⟨group, hgroup, hw⟩ := mem_joinedTokens h
  · exact .inl h
  · obtain ⟨i, hi, _, rfl⟩ := mem_groupList hgroup
    exact mem_groupTokens (groupAt_lt n i) (by omega) hw

/-- A number whose groups are all zero has no words. -/
theorem groupList_nil {scale n : ℕ} : groupList scale n = [] ↔ n % 1000 ^ scale = 0 := by
  induction scale with
  | zero => simp [groupList, Nat.mod_one]
  | succ scale ih =>
      have hsplit : n % 1000 ^ (scale + 1) = n % 1000 ^ scale + 1000 ^ scale * groupAt n scale := Nat.mod_pow_succ
      have hpos : 0 < 1000 ^ scale := Nat.pow_pos (by omega)
      rw [groupList, List.append_eq_nil_iff, ih, hsplit]
      by_cases hzero : groupAt n scale = 0
      · simp [hzero]
      · simp [hzero]

theorem spelledTokens_nil {scale n : ℕ} : spelledTokens scale n = [] ↔ n % 1000 ^ scale = 0 := by
  rw [← groupList_nil]
  constructor
  · intro hnil
    by_contra hne
    exact joinedTokens_ne_nil hne (groupList_ne_nil scale n) hnil
  · intro hnil
    rw [spelledTokens, hnil]
    rfl

end TransportBackend.PersianNumberWords
