import TransportBackend.NumberWordValues
import TransportBackend.TrimmedTexts

/-!
# Numbers in what was said

The first half of `spokenCodes.ts`: the tokens of a text, the runs of number words among them, and the
readings of a run.  Numbers are doubles, and a word such as `constructor` is `in` every table and no number.

* `arithmetic`, `readings`: a run read as one number, and digit by digit;
* `tokens`, `spokenNumbers`: the runs of a text;
* `Chained`: number words that may be joined by «و»;
* `spokenNumbers_chained`: **a text that is nothing but such words is one run**;
* `arithmetic_words`, `readings_falling`: **what is read of words whose numbers fall**.
-/

namespace TransportBackend.SpokenNumbers

open TransportBackend.Binary64
open TransportBackend.DoubleRange
open TransportBackend.MoneyTexts
open TransportBackend.NumberWordValues
open TransportBackend.PersianNumberWords
open TransportBackend.PriceTexts
open TransportBackend.TripFareRules

/-! ### Tables -/

/-- `UNITS`. -/
def units : List (List Char × ℕ) :=
  [(['ص', 'ف', 'ر'], 0), (['ی', 'ک'], 1), (['ی', 'ه'], 1), (['د', 'و'], 2), (['س', 'ه'], 3),
    (['چ', 'ه', 'ا', 'ر'], 4), (['چ', 'ا', 'ر'], 4), (['پ', 'ن', 'ج'], 5), (['پ', 'ن', 'ش'], 5),
    (['ش', 'ش'], 6), (['ش', 'ی', 'ش'], 6), (['ه', 'ف', 'ت'], 7), (['ه', 'ش', 'ت'], 8), (['ن', 'ه'], 9),
    (['د', 'ه'], 10), (['ی', 'ا', 'ز', 'د', 'ه'], 11), (['د', 'و', 'ا', 'ز', 'د', 'ه'], 12),
    (['س', 'ی', 'ز', 'د', 'ه'], 13), (['چ', 'ه', 'ا', 'ر', 'د', 'ه'], 14), (['چ', 'ا', 'ر', 'د', 'ه'], 14),
    (['پ', 'ا', 'ن', 'ز', 'د', 'ه'], 15), (['پ', 'و', 'ن', 'ز', 'د', 'ه'], 15),
    (['ش', 'ا', 'ن', 'ز', 'د', 'ه'], 16), (['ش', 'و', 'ن', 'ز', 'د', 'ه'], 16), (['ه', 'ف', 'د', 'ه'], 17),
    (['ه', 'ی', 'ف', 'د', 'ه'], 17), (['ه', 'ج', 'د', 'ه'], 18), (['ه', 'ی', 'ج', 'د', 'ه'], 18),
    (['ن', 'و', 'ز', 'د', 'ه'], 19), (['ب', 'ی', 'س', 'ت'], 20), (['س', 'ی'], 30), (['چ', 'ه', 'ل'], 40),
    (['پ', 'ن', 'ج', 'ا', 'ه'], 50), (['ش', 'ص', 'ت'], 60), (['ه', 'ف', 'ت', 'ا', 'د'], 70),
    (['ه', 'ش', 'ت', 'ا', 'د'], 80), (['ن', 'و', 'د'], 90), (['ص', 'د'], 100), (['ی', 'ک', 'ص', 'د'], 100),
    (['د', 'و', 'ی', 'س', 'ت'], 200), (['س', 'ی', 'ص', 'د'], 300), (['س', 'ی', '\u200c', 'ص', 'د'], 300),
    (['چ', 'ه', 'ا', 'ر', 'ص', 'د'], 400), (['پ', 'ا', 'ن', 'ص', 'د'], 500),
    (['پ', 'و', 'ن', 'ص', 'د'], 500), (['ش', 'ش', 'ص', 'د'], 600), (['ش', 'ی', 'ش', 'ص', 'د'], 600),
    (['ه', 'ف', 'ت', 'ص', 'د'], 700), (['ه', 'ش', 'ت', 'ص', 'د'], 800), (['ن', 'ه', 'ص', 'د'], 900)]

/-- `MULTIPLIERS`. -/
def multipliers : List (List Char × ℕ) := [(thousand, 1000), (million, 1000000)]

/-- `UNIT_AFTER`. -/
def unitAfter : List (List Char) :=
  [['ت', 'ن'], ['ت', 'ُ', 'ن'], ['ت', 'و', 'ن'], ['ک', 'ی', 'ل', 'و'], ['ک', 'ی', 'ل', 'و', 'گ', 'ر', 'م'],
    ['ت', 'و', 'م', 'ا', 'ن'], ['ت', 'و', 'م', 'ن'], ['ر', 'ی', 'ا', 'ل'], ['د', 'س', 'ت', 'گ', 'ا', 'ه'],
    ['ع', 'د', 'د'], ['ر', 'و', 'ز'], ['س', 'ا', 'ع', 'ت'], ['م', 'ت', 'ر'], ['د', 'ر', 'ص', 'د']]

/-- What is `in` a table though it is not written there. -/
def isInherited (w : List Char) : Bool := inheritedNames.contains (String.ofList w)

def isUnit (w : List Char) : Bool := (units.lookup w).isSome || isInherited w

/-- `MULTIPLIERS[w]` of a word that is `in MULTIPLIERS`; an inherited name is no number. -/
def multiplier (w : List Char) : Option (Option ℕ) :=
  if isInherited w then some none else (multipliers.lookup w).map some

def isMultiplier (w : List Char) : Bool := (multiplier w).isSome

/-- `/^\d+$/`. -/
def isFigure (w : List Char) : Bool := w ≠ [] && w.all Char.isDigit

/-- `Number(w)` or `UNITS[w]`. -/
def valueOfWord (w : List Char) : WithTop ℚ :=
  if isFigure w then numberOf ⟨w, []⟩ else (((units.lookup w).getD 0 : ℕ) : ℚ)

/-! ### Numbers as texts -/

/-- The nearest of the decimals with `k + 1` digits that are read as a number. -/
def decimalWith (v k : ℕ) : Option ℕ :=
  let unit := 10 ^ ((digitsOf v).length - (k + 1))
  let lower := v / unit
  let candidates := if lower % 2 = 0 then [lower, lower + 1] else [lower + 1, lower]
  ((candidates.map (· * unit)).filter fun d : ℕ => double (d : ℚ) = ((v : ℚ) : WithTop ℚ)).argmin
    fun d => (d - v) + (v - d)

/-- `String(v)` of a whole number: from 2⁵³ on the shortest digits that are read as it, from 10²¹ on with an
exponent. -/
def wholeText (v : ℕ) : List Char :=
  if v < 2 ^ 53 then digitsOf v
  else
    let decimal := ((List.range (digitsOf v).length).findSome? (decimalWith v)).getD v
    if decimal < 10 ^ 21 then digitsOf decimal
    else
      let exponent := digitsOf ((digitsOf decimal).length - 1)
      match ((digitsOf decimal).reverse.dropWhile (· == '0')).reverse with
      | [] => ['0']
      | [d] => d :: 'e' :: '+' :: exponent
      | d :: ds => d :: '.' :: ds ++ 'e' :: '+' :: exponent

/-- `String` of a sum of whole numbers; `none` is not a number. -/
def numberText : Option (WithTop ℚ) → List Char
  | none => ['N', 'a', 'N']
  | some none => ['I', 'n', 'f', 'i', 'n', 'i', 't', 'y']
  | some (some q) => wholeText ⌊q⌋.toNat

/-! ### Readings -/

/-- A sum of doubles. -/
def plus (x y : WithTop ℚ) : WithTop ℚ := x.bind fun a => y.bind fun b => double (a + b)

def arithmeticStep (state : Option (WithTop ℚ) × WithTop ℚ) (w : List Char) : Option (WithTop ℚ) × WithTop ℚ :=
  match multiplier w with
  | some m =>
      (state.1.bind fun total => m.map fun m => plus total (times (if state.2 = 0 then 1 else state.2) m), 0)
  | none => (state.1, plus state.2 (valueOfWord w))

/-- The words read as one number. -/
def arithmetic (words : List (List Char)) : List Char :=
  let state := words.foldl arithmeticStep (some 0, 0)
  numberText (state.1.map fun total => plus total state.2)

structure ReadState where
  groups : List (List Char)
  group : List (List Char)
  last : WithTop ℚ

def flush (state : ReadState) : ReadState :=
  ⟨if state.group ≠ [] then state.groups ++ [arithmetic state.group] else state.groups, [], ⊤⟩

def readingStep (state : ReadState) (w : List Char) : ReadState :=
  if w = zero ∨ isFigure w then
    let flushed := flush state
    { flushed with groups := flushed.groups ++ [if w = zero then ['0'] else w] }
  else if isMultiplier w then { state with group := state.group ++ [w], last := ⊤ }
  else
    let started := if state.last ≤ valueOfWord w then flush state else state
    { started with group := started.group ++ [w], last := valueOfWord w }

/-- The words read as one number, and digit by digit. -/
def readings (words : List (List Char)) : List (List Char) :=
  let groups := (flush (words.foldl readingStep ⟨[], [], ⊤⟩)).groups
  if arithmetic words = groups.flatten then [arithmetic words] else [arithmetic words, groups.flatten]

/-! ### Runs -/

/-- `[.،,؟!:؛]`. -/
def isMark (c : Char) : Bool := ['.', '،', ',', '؟', '!', ':', '؛'].contains c

/-- `replace(/[.،,؟!:؛]/g, ' ')`. -/
def withoutPunctuation (text : List Char) : List Char := text.map fun c => if isMark c then ' ' else c

/-- `replace(/(\d+)/g, ' $1 ')`; the first argument tells whether a digit came before. -/
def figuresApart : Bool → List Char → List Char
  | inside, [] => if inside then [' '] else []
  | inside, c :: t =>
      if c.isDigit = inside then c :: figuresApart inside t else ' ' :: c :: figuresApart c.isDigit t

/-- The words of a text: `split(/\s+/).filter(Boolean)`. -/
def wordsIn (text : List Char) : List (List Char) := (text.splitOnP isJsSpace).filter (· ≠ [])

/-- A text as it is searched for numbers. -/
def searched (text : List Char) : List Char := figuresApart false (withoutPunctuation (latin text))

def tokens (text : List Char) : List (List Char) := wordsIn (searched text)

structure SpokenNumber where
  span : List Char
  readings : List (List Char)
  deriving DecidableEq

def isNumberWord (w : List Char) : Bool := isFigure w || isUnit w || isMultiplier w

/-- A run that ended before a token: nothing, if that is a unit. -/
def ended (run : List (List Char)) (next : Option (List Char)) : List SpokenNumber :=
  let words := run.filter (· ≠ joiner)
  if words ≠ [] ∧ next.any (unitAfter.contains ·) = false then [⟨spaced run, readings words⟩] else []

/-- The numbers of the tokens that are left, behind a run. -/
def numbersFrom : List (List Char) → List (List Char) → List SpokenNumber
  | run, [] => if run ≠ [] then ended run none else []
  | run, token :: rest =>
      if isNumberWord token ∨ (token = joiner ∧ run ≠ [] ∧ rest ≠ []) then numbersFrom (run ++ [token]) rest
      else (if run ≠ [] then ended run (some token) else []) ++ numbersFrom [] rest

/-- `replace(/\s+و$/, '')`. -/
def withoutLastJoiner (span : List Char) : List Char :=
  match span.reverse with
  | 'و' :: c :: t => if isJsSpace c then (t.dropWhile isJsSpace).reverse else span
  | _ => span

def spokenNumbers (text : List Char) : List SpokenNumber :=
  (numbersFrom [] (tokens text)).map fun number => { number with span := withoutLastJoiner number.span }

/-! ### Words apart -/

theorem wordsIn_split {c : Char} (hc : isJsSpace c = true) (a b : List Char) :
    wordsIn (a ++ c :: b) = wordsIn a ++ wordsIn b := by
  unfold wordsIn
  rw [List.splitOnP_append_cons a b hc, List.filter_append]

theorem wordsIn_word {w : List Char} (hne : w ≠ []) (h : ∀ c ∈ w, isJsSpace c = false) : wordsIn w = [w] := by
  unfold wordsIn
  rw [List.splitOnP_eq_singleton h, List.filter_cons_of_pos (by simpa using hne), List.filter_nil]

/-- A word of a text: it is not empty and holds no space. -/
def IsWord (w : List Char) : Prop := w ≠ [] ∧ ∀ c ∈ w, isJsSpace c = false

theorem wordsIn_spaced {ws : List (List Char)} (h : ∀ w ∈ ws, IsWord w) : wordsIn (spaced ws) = ws := by
  induction ws with
  | nil => rfl
  | cons w ws ih =>
      obtain ⟨hne, hspace⟩ := h w List.mem_cons_self
      have hrest := ih fun v hv => h v (List.mem_cons_of_mem w hv)
      by_cases hnil : ws = []
      · subst hnil
        exact (congrArg wordsIn List.intercalate_singleton).trans (wordsIn_word hne hspace)
      · rw [spaced_cons w hnil, wordsIn_split (by decide), wordsIn_word hne hspace, hrest]
        rfl

/-- Neither a digit nor a mark. -/
def isPlainChar (c : Char) : Bool := latinDigit c == c && !c.isDigit && !isMark c

/-- A text without digits and marks is searched as it is. -/
theorem searched_plain {text : List Char} (h : ∀ c ∈ text, isPlainChar c = true) : searched text = text := by
  have hchar : ∀ c ∈ text, (latinDigit c = c ∧ c.isDigit = false) ∧ isMark c = false := by
    intro c hc
    have hplain := h c hc
    unfold isPlainChar at hplain
    rw [Bool.and_eq_true, Bool.and_eq_true, beq_iff_eq, Bool.not_eq_true', Bool.not_eq_true'] at hplain
    exact hplain
  have hmarks : withoutPunctuation text = text :=
    (List.map_congr_left fun c hc => if_neg (by rw [(hchar c hc).2]; exact Bool.false_ne_true)).trans (List.map_id _)
  have hfigures : ∀ t : List Char, (∀ c ∈ t, c.isDigit = false) → figuresApart false t = t := by
    intro t ht
    induction t with
    | nil => rfl
    | cons c t ih =>
        rw [figuresApart, if_pos (ht c List.mem_cons_self), ih fun d hd => ht d (List.mem_cons_of_mem c hd)]
  unfold searched
  rw [latin_self fun c hc => (hchar c hc).1.1, hmarks, hfigures text fun c hc => (hchar c hc).1.2]

/-! ### Chains of number words -/

/-- Words of a kind, some of them joined to the next by «و». -/
inductive Chained (kind : List Char → Prop) : List (List Char) → Prop
  | single {w : List Char} (hw : kind w) : Chained kind [w]
  | next {w : List Char} {ws : List (List Char)} (hw : kind w) (hws : Chained kind ws) : Chained kind (w :: ws)
  | joined {w : List Char} {ws : List (List Char)} (hw : kind w) (hws : Chained kind ws) :
      Chained kind (w :: joiner :: ws)

section Chains

variable {kind : List Char → Prop} {a b ws : List (List Char)}

theorem Chained.append (ha : Chained kind a) (hb : Chained kind b) : Chained kind (a ++ b) := by
  induction ha with
  | single hw => exact .next hw hb
  | next hw _ ih => exact .next hw ih
  | joined hw _ ih => exact .joined hw ih

theorem Chained.append_joined (ha : Chained kind a) (hb : Chained kind b) : Chained kind (a ++ joiner :: b) := by
  induction ha with
  | single hw => exact .joined hw hb
  | next hw _ ih => exact .next hw ih
  | joined hw _ ih => exact .joined hw ih

theorem Chained.ne_nil (h : Chained kind ws) : ws ≠ [] := by
  cases h <;> exact List.cons_ne_nil _ _

theorem Chained.mono {kind' : List Char → Prop} (himp : ∀ w, kind w → kind' w) (h : Chained kind ws) :
    Chained kind' ws := by
  induction h with
  | single hw => exact .single (himp _ hw)
  | next hw _ ih => exact .next (himp _ hw) ih
  | joined hw _ ih => exact .joined (himp _ hw) ih

/-- A chain ends with a word of its kind. -/
theorem Chained.last (h : Chained kind ws) : ∃ init w, ws = init ++ [w] ∧ kind w := by
  induction h with
  | @single w hw => exact ⟨[], w, rfl, hw⟩
  | @next w ws hw _ ih =>
      obtain ⟨init, v, rfl, hv⟩ := ih
      exact ⟨w :: init, v, rfl, hv⟩
  | @joined w ws hw _ ih =>
      obtain ⟨init, v, rfl, hv⟩ := ih
      exact ⟨w :: joiner :: init, v, rfl, hv⟩

theorem chained_joinedTokens {groups : List (List (List Char))} (hne : groups ≠ [])
    (h : ∀ group ∈ groups, Chained kind group) : Chained kind (joinedTokens groups) := by
  induction groups with
  | nil => exact absurd rfl hne
  | cons group groups ih =>
      have hgroup := h group List.mem_cons_self
      by_cases hnil : groups = []
      · rw [hnil, joinedTokens_singleton]
        exact hgroup
      · rw [joinedTokens_cons group hnil]
        exact hgroup.append_joined (ih hnil fun g hg => h g (List.mem_cons_of_mem group hg))

end Chains

/-- **A chain of number words is taken into one run**, up to what comes after it. -/
theorem numbersFrom_chained {ws : List (List Char)} (h : Chained (fun w => isNumberWord w = true) ws)
    (run rest : List (List Char)) : numbersFrom run (ws ++ rest) = numbersFrom (run ++ ws) rest := by
  induction h generalizing run with
  | @single w hw => rw [List.singleton_append, numbersFrom, if_pos (.inl hw)]
  | @next w ws hw hws ih =>
      rw [List.cons_append, numbersFrom, if_pos (.inl hw), ih, List.append_assoc]
      rfl
  | @joined w ws hw hws ih =>
      have hmore : ws ++ rest ≠ [] := fun hnil => hws.ne_nil (List.append_eq_nil_iff.mp hnil).1
      rw [List.cons_append, numbersFrom, if_pos (.inl hw), List.cons_append, numbersFrom,
        if_pos (.inr ⟨rfl, by simp, hmore⟩), ih]
      congr 1
      simp

/-- A text that ends with a word other than «و» keeps its last word. -/
theorem withoutLastJoiner_word {init : List (List Char)} {w : List Char} (hw : IsWord w) (hne : w ≠ joiner) :
    withoutLastJoiner (spaced (init ++ [w])) = spaced (init ++ [w]) := by
  obtain ⟨front, hfront⟩ : ∃ front, spaced (init ++ [w]) = front ++ w := by
    by_cases hnil : init = []
    · exact ⟨[], by rw [hnil]; exact List.intercalate_singleton⟩
    · refine ⟨spaced init ++ [' '], ?_⟩
      rw [spaced_append hnil (List.cons_ne_nil _ _), List.append_assoc]
      exact congrArg (fun t => spaced init ++ ' ' :: t) List.intercalate_singleton
  obtain ⟨body, c, rfl⟩ : ∃ body c, w = body ++ [c] := ⟨_, _, (List.dropLast_append_getLast hw.1).symm⟩
  rw [hfront]
  unfold withoutLastJoiner
  have hreverse : (front ++ (body ++ [c])).reverse = c :: (body.reverse ++ front.reverse) := by simp
  rw [hreverse]
  split
  · rename_i d t heq
    obtain ⟨rfl, htail⟩ := List.cons.inj heq
    -- what comes before «و» is a letter of the same word
    rcases List.eq_nil_or_concat body with rfl | ⟨body, e, rfl⟩
    · exact absurd rfl hne
    · rw [List.concat_eq_append, List.reverse_append] at htail
      obtain ⟨rfl, _⟩ := List.cons.inj htail
      rw [if_neg]
      rw [hw.2 e (by simp)]
      exact Bool.false_ne_true
  · rfl

/-! ### Arithmetic -/

/-- The number of a word that is no scale. -/
def wordUnit (w : List Char) : ℕ :=
  if isFigure w then Nat.ofDigitChars 10 w 0 else (units.lookup w).getD 0

def wordScale (w : List Char) : Option ℕ := multipliers.lookup w

theorem tables_spoken : Tables wordUnit wordScale 3 where
  ones := by decide
  teens := by decide
  tens := by decide
  hundreds := by decide
  numerals := by decide
  scales := by decide

theorem wordScale_pos (w : List Char) (s : ℕ) (h : wordScale w = some s) : 0 < s := by
  obtain ⟨front, back, htable, _⟩ := List.lookup_eq_some_iff.mp h
  have hall : ∀ entry ∈ multipliers, 0 < entry.2 := by decide
  exact hall (w, s) (by rw [htable]; simp)

theorem valueOfWord_eq {w : List Char} (h : wordUnit w ≤ 2 ^ 53) :
    valueOfWord w = ((wordUnit w : ℚ) : WithTop ℚ) := by
  unfold valueOfWord wordUnit at *
  split
  · rename_i hfigure
    rw [if_pos hfigure] at h
    unfold numberOf
    have hzero : Nat.ofDigitChars 10 [] 0 = 0 := rfl
    rw [hzero]
    have hsum : ((Nat.ofDigitChars 10 w 0 : ℕ) : ℚ) + ((0 : ℕ) : ℚ) / 10 ^ ([] : List Char).length =
        ((Nat.ofDigitChars 10 w 0 : ℕ) : ℚ) := by simp
    exact (congrArg double hsum).trans (double_natCast _ h)
  · rfl

theorem plus_natCast {a b : ℕ} (h : a + b ≤ 2 ^ 53) :
    plus ((a : ℚ) : WithTop ℚ) ((b : ℚ) : WithTop ℚ) = (((a + b : ℕ) : ℚ) : WithTop ℚ) := by
  show double ((a : ℚ) + (b : ℚ)) = _
  rw [← Nat.cast_add]
  exact double_natCast (a + b) h

theorem multiplier_known {w : List Char} (h : isInherited w = false) : multiplier w = (wordScale w).map some := by
  unfold multiplier
  rw [h]
  rfl

/-- **Adding up in doubles** is adding up, as long as the sum is exact. -/
theorem arithmetic_fold {ws : List (List Char)} (hknown : ∀ w ∈ ws, isInherited w = false) (state : ℕ × ℕ)
    (hbound : (readFrom wordUnit wordScale state ws).1 + (readFrom wordUnit wordScale state ws).2 ≤ 2 ^ 53) :
    ws.foldl arithmeticStep (some ((state.1 : ℚ) : WithTop ℚ), ((state.2 : ℚ) : WithTop ℚ)) =
      (some (((readFrom wordUnit wordScale state ws).1 : ℚ) : WithTop ℚ),
        (((readFrom wordUnit wordScale state ws).2 : ℚ) : WithTop ℚ)) := by
  induction ws generalizing state with
  | nil => rfl
  | cons w ws ih =>
      have hnext : arithmeticStep (some ((state.1 : ℚ) : WithTop ℚ), ((state.2 : ℚ) : WithTop ℚ)) w =
          (some (((readStep wordUnit wordScale state w).1 : ℚ) : WithTop ℚ),
            (((readStep wordUnit wordScale state w).2 : ℚ) : WithTop ℚ)) := by
        have hsum := Nat.le_trans (readFrom_ge wordScale_pos ws (readStep wordUnit wordScale state w)) hbound
        unfold arithmeticStep readStep at *
        rw [multiplier_known (hknown w List.mem_cons_self)]
        cases hw : wordScale w with
        | none =>
            rw [hw] at hsum
            have hsum : state.1 + (state.2 + wordUnit w) ≤ 2 ^ 53 := hsum
            show (some ((state.1 : ℚ) : WithTop ℚ), plus ((state.2 : ℚ) : WithTop ℚ) (valueOfWord w)) = _
            rw [valueOfWord_eq (by omega), plus_natCast (by omega)]
        | some s =>
            rw [hw] at hsum
            have hsum : state.1 + (if state.2 = 0 then 1 else state.2) * s + 0 ≤ 2 ^ 53 := hsum
            have hone : (if ((state.2 : ℚ) : WithTop ℚ) = 0 then 1 else ((state.2 : ℚ) : WithTop ℚ)) =
                (((if state.2 = 0 then 1 else state.2 : ℕ) : ℚ) : WithTop ℚ) := by
              have hiff : ((state.2 : ℚ) : WithTop ℚ) = 0 ↔ state.2 = 0 := by
                rw [WithTop.coe_eq_zero, Nat.cast_eq_zero]
              split <;> split <;> simp_all
            show (some (plus ((state.1 : ℚ) : WithTop ℚ)
              (times (if ((state.2 : ℚ) : WithTop ℚ) = 0 then 1 else ((state.2 : ℚ) : WithTop ℚ)) (s : ℚ))), _) = _
            rw [hone, times_natCast (by omega), plus_natCast (by omega)]
            rfl
      rw [List.foldl_cons, hnext]
      exact ih (fun v hv => hknown v (List.mem_cons_of_mem w hv)) _ hbound

theorem numberText_natCast {n : ℕ} (hn : n < 2 ^ 53) : numberText (some ((n : ℚ) : WithTop ℚ)) = digitsOf n := by
  show wholeText ⌊(n : ℚ)⌋.toNat = _
  rw [Int.floor_natCast, Int.toNat_natCast, wholeText, if_pos hn]

/-- **Words are read as their number.** -/
theorem arithmetic_words {ws : List (List Char)} (hknown : ∀ w ∈ ws, isInherited w = false)
    (hbound : readWords wordUnit wordScale ws < 2 ^ 53) :
    arithmetic ws = digitsOf (readWords wordUnit wordScale ws) := by
  have hbound' : (readFrom wordUnit wordScale (0, 0) ws).1 + (readFrom wordUnit wordScale (0, 0) ws).2 < 2 ^ 53 :=
    hbound
  have hfold := arithmetic_fold hknown (0, 0) hbound'.le
  have hzero : (some (((0 : ℕ) : ℚ) : WithTop ℚ), (((0 : ℕ) : ℚ) : WithTop ℚ)) = (some (0 : WithTop ℚ), 0) := by simp
  unfold arithmetic
  rw [← hzero]
  dsimp only
  rw [hfold]
  show numberText (some (plus _ _)) = _
  rw [plus_natCast hbound'.le]
  exact numberText_natCast hbound'

/-! ### Words that fall -/

/-- A number word that is written in a table, and no digit of a code. -/
structure Spelled (w : List Char) : Prop where
  known : isInherited w = false
  letters : isFigure w = false
  nonzero : w ≠ zero

theorem valueOfWord_spelled {w : List Char} (h : Spelled w) : valueOfWord w = ((wordUnit w : ℚ) : WithTop ℚ) := by
  unfold valueOfWord wordUnit
  rw [h.letters]
  rfl

theorem isMultiplier_spelled {w : List Char} (h : Spelled w) : isMultiplier w = (wordScale w).isSome := by
  unfold isMultiplier
  rw [multiplier_known h.known, Option.isSome_map]

/-- The bound on the next word, as a double. -/
def bound (last : Option ℕ) : WithTop ℚ := last.elim ⊤ fun v => ((v : ℚ) : WithTop ℚ)

/-- A word that falls does not begin a new group. -/
theorem bound_falls {w : List Char} (hw : Spelled w) {last : Option ℕ} (hless : ∀ v ∈ last, wordUnit w < v) :
    ¬bound last ≤ valueOfWord w := by
  rw [valueOfWord_spelled hw]
  cases last with
  | none => exact fun h => WithTop.coe_ne_top (top_le_iff.mp h)
  | some v =>
      have hv := hless v rfl
      show ¬((v : ℚ) : WithTop ℚ) ≤ ((wordUnit w : ℚ) : WithTop ℚ)
      rw [WithTop.coe_le_coe, Nat.cast_le]
      omega

/-- Words that fall stay in the group they begin. -/
theorem readingStep_falling {ws : List (List Char)} (hspelled : ∀ w ∈ ws, Spelled w) {last : Option ℕ}
    (hfalls : Falls wordUnit wordScale last ws) (group : List (List Char)) :
    ∃ last', ws.foldl readingStep ⟨[], group, bound last⟩ = ⟨[], group ++ ws, last'⟩ := by
  induction ws generalizing last group with
  | nil => exact ⟨bound last, by rw [List.append_nil]; rfl⟩
  | cons w ws ih =>
      have hw := hspelled w List.mem_cons_self
      have hrest : ∀ v ∈ ws, Spelled v := fun v hv => hspelled v (List.mem_cons_of_mem w hv)
      have hdigit : ¬(w = zero ∨ isFigure w) := by
        rw [hw.letters]
        simp [hw.nonzero]
      have hstep : ∃ next, readingStep ⟨[], group, bound last⟩ w = ⟨[], group ++ [w], bound next⟩ ∧
          Falls wordUnit wordScale next ws := by
        unfold readingStep
        rw [if_neg hdigit, isMultiplier_spelled hw]
        cases hscale : wordScale w with
        | some s => exact ⟨none, rfl, (falls_scale hscale last ws).mp hfalls⟩
        | none =>
            obtain ⟨hless, hnext⟩ := (falls_unit hscale last ws).mp hfalls
            refine ⟨some (wordUnit w), ?_, hnext⟩
            rw [Option.isSome_none, if_neg Bool.false_ne_true, if_neg (bound_falls hw hless), valueOfWord_spelled hw]
            rfl
      obtain ⟨next, hstate, hnext⟩ := hstep
      obtain ⟨last', hlast⟩ := ih hrest hnext (group ++ [w])
      refine ⟨last', ?_⟩
      rw [List.foldl_cons, hstate, hlast, List.append_assoc]
      rfl

/-- **Words that fall are read in one way**: digit by digit they are one group. -/
theorem readings_falling {ws : List (List Char)} (hne : ws ≠ []) (hspelled : ∀ w ∈ ws, Spelled w)
    (hfalls : Falls wordUnit wordScale none ws) : readings ws = [arithmetic ws] := by
  obtain ⟨last, hstate⟩ := readingStep_falling hspelled hfalls []
  have hgroups : (flush (ws.foldl readingStep ⟨[], [], ⊤⟩)).groups.flatten = arithmetic ws := by
    have hstart : ws.foldl readingStep ⟨[], [], ⊤⟩ = ⟨[], [] ++ ws, last⟩ := hstate
    rw [hstart]
    unfold flush
    rw [List.nil_append, if_pos hne]
    exact List.append_nil _
  unfold readings
  dsimp only
  rw [hgroups, if_pos rfl]

/-! ### The words of a number -/

/-- The words of a number below 10⁹. -/
def IsSpokenWord (w : List Char) : Prop := w ∈ thousand :: million :: numerals

theorem spokenWord_facts : (thousand :: million :: numerals).all (fun w =>
    !isInherited w && !isFigure w && w != zero && w != joiner && isNumberWord w && w != [] &&
      w.all (fun c => !isJsSpace c && isPlainChar c)) = true := by decide

theorem spokenWord_cases {w : List Char} (h : IsSpokenWord w) :
    Spelled w ∧ isNumberWord w = true ∧ w ≠ joiner ∧ IsWord w ∧ ∀ c ∈ w, isPlainChar c = true := by
  have hall := List.all_eq_true.mp spokenWord_facts w h
  simp only [Bool.and_eq_true, Bool.not_eq_true', bne_iff_ne, List.all_eq_true] at hall
  obtain ⟨⟨⟨⟨⟨⟨hknown, hfigure⟩, hzero⟩, hjoiner⟩, hnumber⟩, hne⟩, hchars⟩ := hall
  exact ⟨⟨hknown, hfigure, hzero⟩, hnumber, hjoiner, ⟨hne, fun c hc => (hchars c hc).1⟩, fun c hc => (hchars c hc).2⟩

theorem chained_parts {n : ℕ} (hne : n ≠ 0) (hn : n < 1000) :
    Chained IsSpokenWord (joinedTokens ((parts n).map ([·]))) := by
  refine chained_joinedTokens (fun h => parts_ne_nil hne (List.map_eq_nil_iff.mp h)) fun group hgroup => ?_
  obtain ⟨w, hw, rfl⟩ := List.mem_map.mp hgroup
  exact .single (List.mem_cons_of_mem _ (List.mem_cons_of_mem _ (parts_numerals hn w hw)))

theorem chained_groupTokens {scale group : ℕ} (hne : group ≠ 0) (hgroup : group < 1000) (hscale : scale < 3) :
    Chained IsSpokenWord (groupTokens scale group) := by
  unfold groupTokens
  split
  · exact .single List.mem_cons_self
  · by_cases hzero : scale = 0
    · rw [if_pos hzero, List.append_nil]
      exact chained_parts hne hgroup
    · rw [if_neg hzero]
      refine (chained_parts hne hgroup).append (.single ?_)
      obtain rfl | rfl : scale = 1 ∨ scale = 2 := by omega
      · exact List.mem_cons_self
      · exact List.mem_cons_of_mem _ List.mem_cons_self

/-- The tokens of a number below 10⁹ are number words, some of them joined. -/
theorem chained_spelledTokens {scale n : ℕ} (hscale : scale ≤ 3) (hne : n % 1000 ^ scale ≠ 0) :
    Chained IsSpokenWord (spelledTokens scale n) := by
  refine chained_joinedTokens (fun h => hne (groupList_nil.mp h)) fun group hgroup => ?_
  obtain ⟨i, hi, hpos, rfl⟩ := mem_groupList hgroup
  exact chained_groupTokens hpos (groupAt_lt n i) (by omega)

theorem Chained.mem {kind : List Char → Prop} {ws : List (List Char)} (h : Chained kind ws) :
    ∀ w ∈ ws, w = joiner ∨ kind w := by
  induction h with
  | single hw => exact fun v hv => .inr (List.mem_singleton.mp hv ▸ hw)
  | next hw _ ih =>
      intro v hv
      rcases List.mem_cons.mp hv with rfl | hv
      · exact .inr hw
      · exact ih v hv
  | joined hw _ ih =>
      intro v hv
      rcases List.mem_cons.mp hv with rfl | hv
      · exact .inr hw
      · rcases List.mem_cons.mp hv with rfl | hv
        · exact .inl rfl
        · exact ih v hv

theorem mem_spaced {ws : List (List Char)} {c : Char} (h : c ∈ spaced ws) : c = ' ' ∨ ∃ w ∈ ws, c ∈ w := by
  induction ws with
  | nil => exact absurd h List.not_mem_nil
  | cons w ws ih =>
      by_cases hnil : ws = []
      · subst hnil
        have hw : c ∈ w := by
          have hone : spaced [w] = w := List.intercalate_singleton
          rwa [hone] at h
        exact .inr ⟨w, List.mem_cons_self, hw⟩
      · rw [spaced_cons w hnil] at h
        rcases List.mem_append.mp h with h | h
        · exact .inr ⟨w, List.mem_cons_self, h⟩
        · rcases List.mem_cons.mp h with h | h
          · exact .inl h
          · obtain h | ⟨v, hv, hc⟩ := ih h
            · exact .inl h
            · exact .inr ⟨v, List.mem_cons_of_mem w hv, hc⟩

theorem isWord_joiner : IsWord joiner := ⟨List.cons_ne_nil _ _, TrimmedTexts.noSpaces (by decide)⟩

/-- The tokens of a chain that is spelled out. -/
theorem tokens_chained {ws : List (List Char)} (h : Chained IsSpokenWord ws) : tokens (spaced ws) = ws := by
  have hmem := h.mem
  have hplain : ∀ c ∈ spaced ws, isPlainChar c = true := by
    intro c hc
    obtain rfl | ⟨w, hw, hc⟩ := mem_spaced hc
    · decide
    · obtain rfl | hkind := hmem w hw
      · rw [List.mem_singleton.mp hc]
        decide
      · exact (spokenWord_cases hkind).2.2.2.2 c hc
  unfold tokens
  rw [searched_plain hplain]
  refine wordsIn_spaced fun w hw => ?_
  obtain rfl | hkind := hmem w hw
  · exact isWord_joiner
  · exact (spokenWord_cases hkind).2.2.2.1

/-- **A chain of spelled words is one number.** -/
theorem spokenNumbers_chained {ws : List (List Char)} (h : Chained IsSpokenWord ws) :
    spokenNumbers (spaced ws) = [⟨spaced ws, readings (ws.filter (· ≠ joiner))⟩] := by
  have hchain : Chained (fun w => isNumberWord w = true) ws := h.mono fun w hw => (spokenWord_cases hw).2.1
  obtain ⟨init, w, hlast, hw⟩ := h.last
  obtain ⟨_, _, hjoiner, hword, _⟩ := spokenWord_cases hw
  have hnumbers := numbersFrom_chained hchain [] []
  rw [List.append_nil, List.nil_append] at hnumbers
  have hwords : ws.filter (· ≠ joiner) ≠ [] := by
    refine List.ne_nil_of_mem (List.mem_filter.mpr ⟨?_, decide_eq_true hjoiner⟩)
    rw [hlast]
    exact List.mem_append_right init (List.mem_singleton.mpr rfl)
  have hspan : withoutLastJoiner (spaced ws) = spaced ws := by
    rw [hlast]
    exact withoutLastJoiner_word hword hjoiner
  unfold spokenNumbers
  rw [tokens_chained h, hnumbers, numbersFrom, if_pos h.ne_nil]
  unfold ended
  dsimp only
  rw [if_pos ⟨hwords, rfl⟩, List.map_singleton, hspan]

/-- Below 10⁹ the scale of milliards is not used. -/
theorem below_milliard {n : ℕ} (hn : n < 1000 ^ 3) :
    spelledTokens 4 n = spelledTokens 3 n ∧ n % 1000 ^ 3 = n := by
  have hnone : groupAt n 3 = 0 := by
    unfold groupAt
    rw [Nat.div_eq_of_lt hn, Nat.zero_mod]
  refine ⟨?_, Nat.mod_eq_of_lt hn⟩
  unfold spelledTokens
  rw [groupList, if_pos hnone, List.nil_append]

/-- The words of a number are written in the tables. -/
theorem spelled_words {scale n : ℕ} (hscale : scale ≤ 3) : ∀ w ∈ spelledWords scale n, IsSpokenWord w := by
  intro w hw
  rw [← filter_spelledTokens (by omega) n] at hw
  obtain ⟨hmem, hkeep⟩ := List.mem_filter.mp hw
  have hne : n % 1000 ^ scale ≠ 0 := fun h => by
    rw [spelledTokens_nil.mpr h] at hmem
    exact absurd hmem List.not_mem_nil
  obtain hjoin | hkind := (chained_spelledTokens hscale hne).mem w hmem
  · exact absurd hjoin (of_decide_eq_true hkeep)
  · exact hkind

theorem spelledWords_ne_nil {scale n : ℕ} (hscale : scale ≤ 3) (hne : n % 1000 ^ scale ≠ 0) :
    spelledWords scale n ≠ [] := by
  obtain ⟨init, w, hlast, hw⟩ := (chained_spelledTokens hscale hne).last
  rw [← filter_spelledTokens (by omega) n, hlast]
  refine List.ne_nil_of_mem (List.mem_filter.mpr ⟨?_, decide_eq_true (spokenWord_cases hw).2.2.1⟩)
  exact List.mem_append_right init (List.mem_singleton.mpr rfl)

/-- The words of a number below 10⁹ are read as the number and in no other way. -/
theorem readings_spelledWords {n : ℕ} (hne : n ≠ 0) (hn : n < 1000 ^ 3) :
    readings (spelledWords 3 n) = [digitsOf n] := by
  have hmod := (below_milliard hn).2
  have hspelled : ∀ w ∈ spelledWords 3 n, Spelled w := fun w hw =>
    (spokenWord_cases (spelled_words (Nat.le_refl 3) w hw)).1
  have hvalue : readWords wordUnit wordScale (spelledWords 3 n) = n := by
    rw [readWords_spelledWords tables_spoken, hmod]
  rw [readings_falling (spelledWords_ne_nil (Nat.le_refl 3) (by rwa [hmod])) hspelled
      (falls_spelledWords tables_spoken (Nat.le_refl 3) n),
    arithmetic_words (fun w hw => (hspelled w hw).known) (by rw [hvalue]; omega), hvalue]

/-- **A number below 10⁹ said in words** is one run, read as the number alone. -/
theorem spokenNumbers_number {n : ℕ} (hn : n < 10 ^ 9) :
    spokenNumbers (integerToPersianWords (n : ℤ)) = [⟨integerToPersianWords (n : ℤ), [digitsOf n]⟩] := by
  by_cases hne : n = 0
  · subst hne
    decide +kernel
  · have hsmall : n < 1000 ^ 3 := by omega
    obtain ⟨htokens, hmod⟩ := below_milliard hsmall
    have hchain := chained_spelledTokens (Nat.le_refl 3) (hmod.symm ▸ hne : n % 1000 ^ 3 ≠ 0)
    rw [integerToPersianWords_spaced hne, htokens, spokenNumbers_chained hchain, filter_spelledTokens (by omega),
      readings_spelledWords hne hsmall]

end TransportBackend.SpokenNumbers
