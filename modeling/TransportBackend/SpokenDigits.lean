import TransportBackend.SpokenNumbers

/-!
# Number words turned to digits

`numbersToDigits` of `spokenCodes.ts`: the runs of number words of a text become digits, everything else stays.

* `pieces`: the words of a text, each with the blank behind it;
* `runDigits`: a run as digits, with «میلیون» kept where a price is written so;
* `numbersToDigits`: the loop over the words, run by run;
* `runDigits_number`: **the words of a number become its digits**, in millions if it has no other;
* `convert_chained`: **a chain of number words is replaced as a whole**.
-/

namespace TransportBackend.SpokenDigits

open TransportBackend.Binary64
open TransportBackend.DoubleRange
open TransportBackend.MoneyTexts
open TransportBackend.NumberWordValues
open TransportBackend.PersianNumberWords
open TransportBackend.PriceTexts
open TransportBackend.SpokenNumbers
open TransportBackend.TripFareRules

/-! ### Pieces -/

/-- The blank a text begins with, and its words, each with the blank behind it: `split(/(\s+)/)`. -/
def pieces : List Char → List Char × List (List Char × List Char)
  | [] => ([], [])
  | c :: t =>
      if isJsSpace c then (c :: (pieces t).1, (pieces t).2)
      else
        match pieces t with
        | ([], (w, blank) :: rest) => ([], (c :: w, blank) :: rest)
        | (lead, rest) => ([], ([c], lead) :: rest)

/-- `[.،,؟!:؛«»"]`. -/
def isEdgeMark (c : Char) : Bool := ['.', '،', ',', '؟', '!', ':', '؛', '«', '»', '"'].contains c

/-- The marks before a word, the word, and the marks behind it. -/
def leadOf (part : List Char) : List Char := part.takeWhile isEdgeMark

def bodyOf (part : List Char) : List Char :=
  ((part.dropWhile isEdgeMark).reverse.dropWhile isEdgeMark).reverse

def trailOf (part : List Char) : List Char :=
  ((part.dropWhile isEdgeMark).reverse.takeWhile isEdgeMark).reverse

/-- `word(i)`. -/
def wordOf (piece : List Char × List Char) : List Char := latin (bodyOf piece.1)

/-! ### Runs as digits -/

/-- `QUANTITY_AFTER`. -/
def quantityAfter : List (List Char) :=
  [['ت', 'ن'], ['ت', 'ُ', 'ن'], ['ت', 'و', 'ن'], ['ک', 'ی', 'ل', 'و'], ['ک', 'ی', 'ل', 'و', 'گ', 'ر', 'م'],
    ['ت', 'و', 'م', 'ا', 'ن'], ['ت', 'و', 'م', 'ن'], ['ر', 'ی', 'ا', 'ل'], ['د', 'س', 'ت', 'گ', 'ا', 'ه']]

/-- `NOT_ALONE`. -/
def notAlone : List (List Char) := [['ی', 'ک'], ['ی', 'ه'], ['ن', 'ه']]

/-- One number as digits. -/
def numberDigits (words : List (List Char)) : List Char :=
  if words.length > 1 ∧ (words.filter isMultiplier).length = 1 ∧ words.getLast? = some million then
    arithmetic words.dropLast ++ ' ' :: million
  else arithmetic words

structure SplitState where
  numbers : List (List (List Char))
  group : List (List Char)
  last : WithTop ℚ

/-- A number that is not less than the one before it begins a new one. -/
def splitStep (state : SplitState) (w : List Char) : SplitState :=
  let started : SplitState :=
    if !isMultiplier w && state.group ≠ [] && decide (state.last ≤ valueOfWord w) then
      ⟨state.numbers ++ [state.group], [], state.last⟩
    else state
  ⟨started.numbers, started.group ++ [w], if isMultiplier w then ⊤ else valueOfWord w⟩

/-- A run as digits; with a zero in it, it was said digit by digit. -/
def runDigits (words : List (List Char)) : List Char :=
  if words.contains zero then (readings words).getLastD []
  else
    let state := words.foldl splitStep ⟨[], [], ⊤⟩
    let numbers := if state.group ≠ [] then state.numbers ++ [state.group] else state.numbers
    spaced (numbers.map numberDigits)

/-! ### The loop -/

/-- The pieces that go on with a run, and those that do not. -/
def takeRun (last : List Char × List Char) :
    List (List Char × List Char) → List (List Char × List Char) × List (List Char × List Char)
  | [] => ([], [])
  | [p] => if trailOf last.1 = [] ∧ isNumberWord (wordOf p) then ([p], []) else ([], [p])
  | p :: q :: rest =>
      if trailOf last.1 = [] ∧ isNumberWord (wordOf p) then
        (p :: (takeRun p (q :: rest)).1, (takeRun p (q :: rest)).2)
      else if trailOf last.1 = [] ∧ wordOf p = joiner ∧ isNumberWord (wordOf q) ∧ trailOf p.1 = [] then
        (p :: q :: (takeRun q rest).1, (takeRun q rest).2)
      else ([], p :: q :: rest)

/-- The text of pieces. -/
def textOf (ps : List (List Char × List Char)) : List Char := ps.flatMap fun p => p.1 ++ p.2

/-- Whether a run stays as it is before a word. -/
def staysWords (words : List (List Char)) (after : Option (List Char)) : Bool :=
  (match words with
    | [w] => notAlone.contains w && !after.any (quantityAfter.contains ·)
    | _ => false) || words.all isFigure

/-- What a run becomes: the marks around it stay. -/
def replaced (first last : List Char × List Char) (words : List (List Char)) : List Char :=
  leadOf first.1 ++ runDigits words ++ trailOf last.1 ++ last.2

/-- The loop over the pieces; as many steps as there are pieces are enough. -/
def convert : ℕ → List (List Char × List Char) → List Char
  | 0, ps => textOf ps
  | _, [] => []
  | steps + 1, p :: ps =>
      if isNumberWord (wordOf p) then
        let run := (takeRun p ps).1
        let rest := (takeRun p ps).2
        let words := ((p :: run).map wordOf).filter (· ≠ joiner)
        (if staysWords words (rest.head?.map wordOf) then textOf (p :: run)
          else replaced p ((p :: run).getLastD p) words) ++ convert steps rest
      else textOf [p] ++ convert steps ps

def numbersToDigits (text : List Char) : List Char :=
  (pieces text).1 ++ convert (pieces text).2.length (pieces text).2

/-! ### The pieces of words -/

theorem pieces_space {c : Char} (hc : isJsSpace c = true) (t : List Char) :
    pieces (c :: t) = (c :: (pieces t).1, (pieces t).2) := by
  rw [pieces, if_pos hc]

theorem pieces_letter {c : Char} (hc : isJsSpace c = false) (t : List Char) : pieces (c :: t) =
    match pieces t with
      | ([], (w, blank) :: rest) => ([], (c :: w, blank) :: rest)
      | (lead, rest) => ([], ([c], lead) :: rest) := by
  rw [pieces, hc, if_neg Bool.false_ne_true]

/-- A word and what comes behind it. -/
theorem pieces_word {w t : List Char} (hw : IsWord w) (ht : t = [] ∨ ∃ c u, t = c :: u ∧ isJsSpace c = true) :
    pieces (w ++ t) = ([], (w, (pieces t).1) :: (pieces t).2) := by
  obtain ⟨hne, hchars⟩ := hw
  induction w with
  | nil => exact absurd rfl hne
  | cons c w ih =>
      have hc := hchars c List.mem_cons_self
      rw [List.cons_append, pieces_letter hc]
      by_cases hnil : w = []
      · subst hnil
        rcases ht with rfl | ⟨d, u, rfl, hd⟩
        · rfl
        · rw [List.nil_append, pieces_space hd]
      · rw [ih hnil fun d hd => hchars d (List.mem_cons_of_mem c hd)]

/-- The pieces of words with one space between them. -/
theorem pieces_spaced {ws : List (List Char)} {last : List Char} (hws : ∀ w ∈ ws, IsWord w) (hlast : IsWord last) :
    pieces (spaced (ws ++ [last])) = ([], ws.map (·, [' ']) ++ [(last, [])]) := by
  induction ws with
  | nil =>
      have hone : spaced ([] ++ [last]) = last ++ [] := by
        rw [List.append_nil]
        exact List.intercalate_singleton
      rw [hone, pieces_word hlast (.inl rfl)]
      rfl
  | cons w ws ih =>
      have hspace : isJsSpace ' ' = true := by decide
      rw [List.cons_append, spaced_cons w (by simp),
        pieces_word (hws w List.mem_cons_self) (.inr ⟨' ', _, rfl, hspace⟩), pieces_space hspace,
        ih fun v hv => hws v (List.mem_cons_of_mem w hv)]
      rfl

/-! ### Runs -/

/-- A word without digits and marks. -/
def Bare (w : List Char) : Prop := ∀ c ∈ w, latinDigit c = c ∧ isEdgeMark c = false

theorem bare_parts {w : List Char} (h : Bare w) (blank : List Char) :
    leadOf w = [] ∧ trailOf w = [] ∧ wordOf (w, blank) = w := by
  have hkeep : ∀ l : List Char, (∀ c ∈ l, isEdgeMark c = false) →
      l.takeWhile isEdgeMark = [] ∧ l.dropWhile isEdgeMark = l := by
    intro l hl
    cases l with
    | nil => exact ⟨rfl, rfl⟩
    | cons c l =>
        have hc := hl c List.mem_cons_self
        exact ⟨List.takeWhile_cons_of_neg (by rw [hc]; exact Bool.false_ne_true),
          List.dropWhile_cons_of_neg (by rw [hc]; exact Bool.false_ne_true)⟩
  obtain ⟨hlead, hbody⟩ := hkeep w fun c hc => (h c hc).2
  obtain ⟨htrail, hfront⟩ := hkeep w.reverse fun c hc => (h c (List.mem_reverse.mp hc)).2
  refine ⟨hlead, ?_, ?_⟩
  · unfold trailOf
    rw [hbody, htrail]
    rfl
  · show latin (bodyOf w) = w
    unfold bodyOf
    rw [hbody, hfront, List.reverse_reverse]
    exact latin_self fun c hc => (h c hc).1

/-- What comes behind a chain and does not go on with it. -/
def Stops (rest : List (List Char × List Char)) : Prop :=
  ∃ p ps, rest = p :: ps ∧ isNumberWord (wordOf p) = false ∧ wordOf p ≠ joiner

/-- Words of a kind that are numbers as they stand. -/
structure NumberKind (kind : List Char → Prop) : Prop where
  number : ∀ w, kind w → isNumberWord w = true
  bare : ∀ w, kind w → Bare w

theorem bare_joiner : Bare joiner := by
  intro c hc
  rw [List.mem_singleton.mp hc]
  decide

theorem not_number_joiner : isNumberWord joiner = false := by decide

/-- **A chain of number words is one run.** -/
theorem takeRun_chained {kind : List Char → Prop} (hkind : NumberKind kind) {ws : List (List Char)}
    (h : Chained kind ws) {rest : List (List Char × List Char)} (hrest : Stops rest) :
    ∀ w tail, ws = w :: tail → takeRun (w, [' ']) (tail.map (·, [' ']) ++ rest) = (tail.map (·, [' ']), rest) := by
  obtain ⟨stop, more, rfl, hstop, hnot⟩ := hrest
  have hnumber : ∀ v, kind v → isNumberWord (wordOf (v, [' '])) = true := fun v hv => by
    rw [(bare_parts (hkind.bare v hv) [' ']).2.2]
    exact hkind.number v hv
  have htrail : ∀ v, kind v → trailOf v = [] := fun v hv => (bare_parts (hkind.bare v hv) [' ']).2.1
  induction h with
  | @single v hv =>
      rintro w tail heq
      obtain ⟨rfl, rfl⟩ := List.cons.inj heq
      cases more with
      | nil =>
          show (if trailOf v = [] ∧ isNumberWord (wordOf stop) = true then _ else ([], [stop])) = _
          rw [hstop, if_neg (by simp)]
          rfl
      | cons q more =>
          show takeRun (v, [' ']) (stop :: q :: more) = _
          rw [takeRun, hstop, if_neg (by simp), if_neg fun h => hnot h.2.1]
          rfl
  | @next v vs hv hvs ih =>
      rintro w tail heq
      obtain ⟨rfl, rfl⟩ := List.cons.inj heq
      obtain ⟨u, us, rfl⟩ := List.exists_cons_of_ne_nil hvs.ne_nil
      have hu : kind u := by
        cases hvs with
        | single hw => exact hw
        | next hw _ => exact hw
        | joined hw _ => exact hw
      have hgo := ih u us rfl
      obtain ⟨q, qs, hq⟩ : ∃ q qs, us.map (·, [' ']) ++ stop :: more = q :: qs :=
        List.exists_cons_of_ne_nil (by simp)
      rw [List.map_cons, List.cons_append, hq, takeRun, if_pos ⟨htrail v hv, hnumber u hu⟩, ← hq, hgo]
  | @joined v vs hv hvs ih =>
      rintro w tail heq
      obtain ⟨rfl, rfl⟩ := List.cons.inj heq
      obtain ⟨u, us, rfl⟩ := List.exists_cons_of_ne_nil hvs.ne_nil
      have hu : kind u := by
        cases hvs with
        | single hw => exact hw
        | next hw _ => exact hw
        | joined hw _ => exact hw
      obtain ⟨_, hjoinTrail, hjoin⟩ := bare_parts bare_joiner [' ']
      have hgo := ih u us rfl
      rw [List.map_cons, List.map_cons, List.cons_append, List.cons_append, takeRun,
        if_neg (by rw [hjoin, not_number_joiner]; simp),
        if_pos ⟨htrail v hv, hjoin, hnumber u hu, hjoinTrail⟩, hgo]

/-- The step of the loop at a chain. -/
theorem convert_chained {kind : List Char → Prop} (hkind : NumberKind kind) {ws : List (List Char)}
    (h : Chained kind ws) {rest : List (List Char × List Char)} (hrest : Stops rest) (steps : ℕ) :
    convert (steps + 1) (ws.map (·, [' ']) ++ rest) =
      (if staysWords (ws.filter (· ≠ joiner)) (rest.head?.map wordOf) then textOf (ws.map (·, [' ']))
        else runDigits (ws.filter (· ≠ joiner)) ++ [' ']) ++ convert steps rest := by
  have hbare : ∀ w ∈ ws, Bare w := fun w hw => (h.mem w hw).elim (fun hj => hj ▸ bare_joiner) (hkind.bare w)
  obtain ⟨w, tail, rfl⟩ := List.exists_cons_of_ne_nil h.ne_nil
  have hw : kind w := by
    cases h with
    | single hw => exact hw
    | next hw _ => exact hw
    | joined hw _ => exact hw
  obtain ⟨hlead, _, hword⟩ := bare_parts (hkind.bare w hw) [' ']
  have hwords : ((w, [' ']) :: tail.map (·, [' '])).map wordOf = w :: tail := by
    have hall : ((w :: tail).map (·, [' '])).map wordOf = w :: tail := by
      rw [List.map_map]
      exact (List.map_congr_left fun v hv => (bare_parts (hbare v hv) [' ']).2.2).trans (List.map_id _)
    exact hall
  have hreplaced : replaced (w, [' ']) (((w, [' ']) :: tail.map (·, [' '])).getLastD (w, [' ']))
      ((w :: tail).filter (· ≠ joiner)) = runDigits ((w :: tail).filter (· ≠ joiner)) ++ [' '] := by
    have hlast : ∃ v ∈ w :: tail, ((w, [' ']) :: tail.map (·, [' '])).getLastD (w, [' ']) = (v, [' ']) := by
      have hmem : ((w, [' ']) :: tail.map (·, [' '])).getLastD (w, [' ']) ∈ (w :: tail).map (·, [' ']) := by
        rw [List.getLastD_cons]
        exact List.getLastD_mem_cons
      obtain ⟨v, hv, heq⟩ := List.mem_map.mp hmem
      exact ⟨v, hv, heq.symm⟩
    obtain ⟨v, hv, hlast⟩ := hlast
    rw [hlast]
    unfold replaced
    rw [hlead, (bare_parts (hbare v hv) [' ']).2.1, List.nil_append, List.append_nil]
  rw [List.map_cons, List.cons_append, convert, if_pos (by rw [hword]; exact hkind.number w hw),
    takeRun_chained hkind h hrest w tail rfl]
  dsimp only
  rw [hwords, hreplaced]

/-- A word that is no number stays. -/
theorem convert_word {p : List Char × List Char} (hp : isNumberWord (wordOf p) = false)
    (ps : List (List Char × List Char)) (steps : ℕ) :
    convert (steps + 1) (p :: ps) = p.1 ++ p.2 ++ convert steps ps := by
  rw [convert, hp, if_neg Bool.false_ne_true]
  congr 1
  exact List.append_nil _

theorem convert_nil (steps : ℕ) : convert steps [] = [] := by
  cases steps <;> rfl

/-! ### One number -/

/-- Words that fall are one number. -/
theorem splitStep_falling {ws : List (List Char)} (hspelled : ∀ w ∈ ws, Spelled w) {last : Option ℕ}
    (hfalls : Falls wordUnit wordScale last ws) (group : List (List Char)) :
    ∃ last', ws.foldl splitStep ⟨[], group, bound last⟩ = ⟨[], group ++ ws, last'⟩ := by
  induction ws generalizing last group with
  | nil => exact ⟨bound last, by rw [List.append_nil]; rfl⟩
  | cons w ws ih =>
      have hw := hspelled w List.mem_cons_self
      have hstep : ∃ next, splitStep ⟨[], group, bound last⟩ w = ⟨[], group ++ [w], bound next⟩ ∧
          Falls wordUnit wordScale next ws := by
        unfold splitStep
        rw [isMultiplier_spelled hw]
        cases hscale : wordScale w with
        | some s => exact ⟨none, rfl, (falls_scale hscale last ws).mp hfalls⟩
        | none =>
            obtain ⟨hless, hnext⟩ := (falls_unit hscale last ws).mp hfalls
            refine ⟨some (wordUnit w), ?_, hnext⟩
            dsimp only
            rw [decide_eq_false (bound_falls hw hless), Bool.and_false, if_neg Bool.false_ne_true,
              Option.isSome_none, if_neg Bool.false_ne_true, valueOfWord_spelled hw]
            rfl
      obtain ⟨next, hstate, hnext⟩ := hstep
      obtain ⟨last', hlast⟩ := ih (fun v hv => hspelled v (List.mem_cons_of_mem w hv)) hnext (group ++ [w])
      refine ⟨last', ?_⟩
      rw [List.foldl_cons, hstate, hlast, List.append_assoc]
      rfl

theorem runDigits_falling {ws : List (List Char)} (hne : ws ≠ []) (hspelled : ∀ w ∈ ws, Spelled w)
    (hfalls : Falls wordUnit wordScale none ws) : runDigits ws = numberDigits ws := by
  have hzero : ¬ws.contains zero = true := fun h => (hspelled zero (List.contains_iff_mem.mp h)).nonzero rfl
  obtain ⟨last, hstate⟩ := splitStep_falling hspelled hfalls []
  have hstart : ws.foldl splitStep ⟨[], [], ⊤⟩ = ⟨[], [] ++ ws, last⟩ := hstate
  unfold runDigits
  rw [if_neg hzero, hstart]
  dsimp only
  rw [List.nil_append, if_pos hne]
  exact List.intercalate_singleton

/-- A number as a price is written: in millions, if it has no other digits. -/
def amountText (n : ℕ) : List Char :=
  if n % 1000 ^ 2 = 0 then digitsOf (n / 1000 ^ 2) ++ ' ' :: million else digitsOf n

theorem isMultiplier_words : (numerals.all fun w => !isMultiplier w) = true ∧ isMultiplier million = true ∧
    (thousand :: numerals).all (· ≠ million) = true := by decide

/-- The words of a whole number of millions. -/
theorem millions_words {n : ℕ} (hn : n < 1000 ^ 3) (hne : n ≠ 0) (hwhole : n % 1000 ^ 2 = 0) :
    spelledWords 3 n = parts (n / 1000 ^ 2) ++ [million] ∧ n / 1000 ^ 2 ≠ 0 ∧ n / 1000 ^ 2 < 1000 := by
  have hsmall : n / 1000 ^ 2 < 1000 := by omega
  have hpos : n / 1000 ^ 2 ≠ 0 := by omega
  have htop : groupAt n 2 = n / 1000 ^ 2 := Nat.mod_eq_of_lt hsmall
  have hlower : groupAt n 1 = 0 ∧ groupAt n 0 = 0 := by
    unfold groupAt
    omega
  refine ⟨?_, hpos, hsmall⟩
  rw [spelledWords, spelledWords, spelledWords, htop, hlower.1, hlower.2, if_neg hpos, if_pos rfl, if_pos rfl]
  unfold groupWords
  rw [if_neg (by omega), if_neg (by omega)]
  exact List.append_nil _

/-- **The words of a number become its digits**, in millions if it has no other. -/
theorem runDigits_number {n : ℕ} (hne : n ≠ 0) (hn : n < 1000 ^ 3) :
    runDigits (spelledWords 3 n) = amountText n := by
  have hmod := (below_milliard hn).2
  have hspelled : ∀ w ∈ spelledWords 3 n, Spelled w := fun w hw =>
    (spokenWord_cases (spelled_words (Nat.le_refl 3) w hw)).1
  have hwords := spelledWords_ne_nil (Nat.le_refl 3) (hmod.symm ▸ hne : n % 1000 ^ 3 ≠ 0)
  rw [runDigits_falling hwords hspelled (falls_spelledWords tables_spoken (Nat.le_refl 3) n)]
  unfold numberDigits amountText
  obtain ⟨hplain, hmillion, hother⟩ := isMultiplier_words
  by_cases hwhole : n % 1000 ^ 2 = 0
  · obtain ⟨hmillions, hpos, hsmall⟩ := millions_words hn hne hwhole
    have hnone : (parts (n / 1000 ^ 2)).filter isMultiplier = [] := by
      refine List.filter_eq_nil_iff.mpr fun w hw => ?_
      have h := List.all_eq_true.mp hplain w (parts_numerals hsmall w hw)
      simpa using h
    have hlength : 0 < (parts (n / 1000 ^ 2)).length := List.length_pos_of_ne_nil (parts_ne_nil hpos)
    have hvalue : readWords wordUnit wordScale (parts (n / 1000 ^ 2)) = n / 1000 ^ 2 := by
      unfold readWords
      rw [readFrom_parts tables_spoken hsmall, Nat.zero_add]
    have hknown : ∀ w ∈ parts (n / 1000 ^ 2), isInherited w = false := fun w hw =>
      (hspelled w (by rw [hmillions]; exact List.mem_append_left _ hw)).known
    rw [if_pos hwhole, hmillions, if_pos, List.dropLast_concat, arithmetic_words hknown (by rw [hvalue]; omega), hvalue]
    refine ⟨?_, ?_, ?_⟩
    · rw [List.length_append, List.length_singleton]
      omega
    · rw [List.filter_append, hnone, List.filter_cons_of_pos hmillion]
      rfl
    · exact List.getLast?_concat
  · have hvalue : readWords wordUnit wordScale (spelledWords 3 n) = n := by
      rw [readWords_spelledWords tables_spoken, hmod]
    have hlower := spelledWords_ne_nil (by omega : 2 ≤ 3) hwhole
    have hsplit : ∃ upper, spelledWords 3 n = upper ++ spelledWords 2 n := ⟨_, rfl⟩
    obtain ⟨upper, hupper⟩ := hsplit
    have hlast : (spelledWords 3 n).getLast? ≠ some million := by
      intro h
      rw [hupper, List.getLast?_append, Option.or_of_isSome (by simp [hlower])] at h
      have hthousand : million ∈ thousand :: numerals := by
        rcases mem_spelledWords (List.mem_of_getLast? h) with h | ⟨i, hi, hpos, h⟩
        · exact List.mem_cons_of_mem _ h
        · obtain rfl : i = 1 := by omega
          rw [h]
          exact List.mem_cons_self
      exact of_decide_eq_true (List.all_eq_true.mp hother million hthousand) rfl
    rw [if_neg hwhole, if_neg fun h => hlast h.2.2,
      arithmetic_words (fun w hw => (hspelled w hw).known) (by rw [hvalue]; omega), hvalue]

theorem numberKind_spoken : NumberKind IsSpokenWord where
  number w hw := (spokenWord_cases hw).2.1
  bare w hw c hc := by
    have hall : ((thousand :: million :: numerals).all fun w =>
        w.all fun c => latinDigit c == c && !isEdgeMark c) = true := by decide
    have h := List.all_eq_true.mp (List.all_eq_true.mp hall w hw) c hc
    rw [Bool.and_eq_true, beq_iff_eq, Bool.not_eq_true'] at h
    exact h

end TransportBackend.SpokenDigits
