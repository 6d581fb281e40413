import TransportBackend.PriceGroups
import Mathlib.Data.List.MinMax

/-!
# Words in a price

The readers search what follows the figure for scale words and units, from its start or by a list of
patterns.  The words of a price may be written together; none of them hides or makes another.

* `occurs_tokens`: **a pattern occurs where it is one of the words**;
* `firstMultiplier_tokens`: the multiplier written first is that of the first scale word;
* `firstOf_scales`: the scale found by the list is the largest one.
-/

namespace TransportBackend.PriceWords

open TransportBackend.MoneyTexts
open TransportBackend.PriceForms
open TransportBackend.PriceGroups
open TransportBackend.PriceTexts
open TransportBackend.TextPatterns

/-! ### Words found -/

/-- What follows a word does not make it another: no `ی` or `ل`, and no `ره`. -/
def joins : List Char → Bool
  | [] => true
  | c :: t => c != 'ی' && c != 'ل' && !(c == 'ر' && t.head? == some 'ه')

theorem joins_render (width : ℕ → ℕ) (ts : List Token) : joins (render width Item.plain ts) = true := by
  have hdigit : ∀ {c : Char}, c.isDigit = true → ∀ t, joins (c :: t) = true := by
    intro c hc t
    rcases digit_cases hc with rfl | rfl | rfl | rfl | rfl | rfl | rfl | rfl | rfl | rfl <;> rfl
  rcases ts with _ | ⟨t, ts⟩
  · rfl
  · have hcons := render_cons width Item.plain t ts []
    rw [List.append_nil, List.append_nil] at hcons
    rw [hcons]
    generalize width t.1 = k
    obtain ⟨n, w | f⟩ := t
    · rcases k with _ | k
      · cases w with
        | scale s => cases s <;> rfl
        | upTo => rfl
        | unit u => cases u <;> rfl
      · rfl
    · rcases k with _ | k
      · obtain ⟨c, u, hc⟩ := List.exists_cons_of_ne_nil f.whole_ne_nil
        show joins (f.plain ++ _) = true
        unfold TypedFigure.plain
        rw [hc]
        exact hdigit (f.isDigit_whole c (by rw [hc]; exact List.mem_cons_self)) _
      · rfl

/-- The patterns of both readers. -/
def readerPatterns : List Pattern :=
  oneOf [word million, word ['م', 'ل', 'ی', 'و', 'ن']] :: word thousand :: pricePatterns

theorem joins_cons {c : Char} {t : List Char} (h : joins (c :: t) = true) :
    ('ی' == c) = false ∧ ('ل' == c) = false ∧ (¬ 'ر' = c ∨ (['ه', 'م'] : List Char).isPrefixOf t = false) := by
  obtain ⟨⟨hy, hl⟩, hr⟩ : (c ≠ 'ی' ∧ c ≠ 'ل') ∧ (c = 'ر' → t.head? ≠ some 'ه') := by
    simpa [joins, Decidable.imp_iff_not_or] using h
  refine ⟨beq_eq_false_iff_ne.mpr hy.symm, beq_eq_false_iff_ne.mpr hl.symm, ?_⟩
  by_cases hc : 'ر' = c
  · refine .inr ?_
    cases t with
    | nil => rfl
    | cons d t =>
        have hd : ('ه' == d) = false := beq_eq_false_iff_ne.mpr fun heq => hr hc.symm (by rw [← heq]; rfl)
        simp [List.isPrefixOf, hd]
  · exact .inl hc

/-- In a word a pattern begins at its first letter or not at all, whatever follows. -/
theorem misses_word {p : Pattern} (hp : p ∈ readerPatterns) (w : Word) {r : List Char} (hr : joins r = true) :
    p (w.text ++ r) = p w.text ∧ Misses p w.text.tail r := by
  simp only [readerPatterns, pricePatterns, currencies, List.map_cons, List.map_nil, List.mem_cons,
    List.cons_append, List.nil_append, List.not_mem_nil, or_false] at hp
  rcases r with _ | ⟨c, t⟩
  · rcases hp with rfl | rfl | rfl | rfl | rfl | rfl | rfl | rfl | rfl | rfl | rfl <;>
      rcases w with (_ | _ | _) | _ | (_ | _) <;> exact ⟨rfl, rfl⟩
  · obtain ⟨hy, hl, hrh⟩ := joins_cons hr
    -- the last letter alone may begin a pattern: `ر` for «ریال», `د` for «دلار» and «درهم», `ل` for «لیر»
    rcases hp with rfl | rfl | rfl | rfl | rfl | rfl | rfl | rfl | rfl | rfl | rfl <;>
      rcases w with (_ | _ | _) | _ | (_ | _) <;> refine ⟨rfl, ?_⟩ <;>
        first
        | rfl
        | simp [Misses, misses, Word.text, thousand, milliard, rial, oneOf, word, wordI, tomanOrRial, toman,
            List.isPrefixOf, hy, hl, hrh]

/-- Where a pattern matches first when the text begins with a word. -/
theorem searchAt_word {p : Pattern} (hp : p ∈ readerPatterns) (w : Word) {r : List Char} (hr : joins r = true) :
    searchAt p (w.text ++ r) =
      if p w.text = true then some 0 else (searchAt p r).map (· + w.text.length) := by
  obtain ⟨hhead, htail⟩ := misses_word hp w hr
  obtain ⟨c, t, hw, _⟩ := w.text_cons
  split
  · rename_i h
    exact searchAt_of_match (hhead.trans h)
  · rename_i h
    rw [Bool.not_eq_true, ← hhead] at h
    rw [hw] at h htail ⊢
    exact searchAt_append (misses_cons.mpr ⟨h, htail⟩)

theorem reader_filler {p : Pattern} (hp : p ∈ readerPatterns) {c : Char} (hc : isFiller c = true)
    (t : List Char) : p (c :: t) = false := by
  rcases List.mem_cons.mp hp with rfl | hp
  · rcases filler_cases hc with hdigit | rfl | rfl
    · rcases digit_cases hdigit with rfl | rfl | rfl | rfl | rfl | rfl | rfl | rfl | rfl | rfl <;> rfl
    · rfl
    · rfl
  rcases List.mem_cons.mp hp with rfl | hp
  · rcases filler_cases hc with hdigit | rfl | rfl
    · rcases digit_cases hdigit with rfl | rfl | rfl | rfl | rfl | rfl | rfl | rfl | rfl | rfl <;> rfl
    · rfl
    · rfl
  · exact pattern_filler hp hc t

theorem misses_filler {p : Pattern} (hp : p ∈ readerPatterns) {l : List Char}
    (hl : ∀ c ∈ l, isFiller c = true) (r : List Char) : Misses p l r :=
  misses_of_heads (fun c hc t => reader_filler hp (hl c hc) t) r

theorem misses_spaces {p : Pattern} (hp : p ∈ readerPatterns) (n : ℕ) (r : List Char) : Misses p (spaces n) r :=
  misses_filler hp (fun c hc => by rw [List.eq_of_mem_replicate hc]; rfl) r

theorem misses_figure {p : Pattern} (hp : p ∈ readerPatterns) (f : TypedFigure) (r : List Char) :
    Misses p f.plain r := by
  refine misses_filler hp (fun c hc => ?_) r
  rcases List.mem_append.mp hc with hc | hc
  · exact digits_filler f.isDigit_whole c hc
  · cases hdecimals : f.decimals with
    | none =>
        rw [hdecimals] at hc
        cases hc
    | some d =>
        rw [hdecimals] at hc
        rcases List.mem_cons.mp hc with rfl | hc
        · rfl
        · exact digits_filler d.isDigit_digits c hc

/-- The item is a word that a pattern takes. -/
def holds (p : Pattern) : Item → Bool
  | .word w => p w.text
  | .figure _ => false

/-- An item without the word, behind its spaces. -/
theorem misses_token {p : Pattern} (hp : p ∈ readerPatterns) (n : ℕ) {i : Item} (hi : holds p i = false)
    {r : List Char} (hr : joins r = true) : Misses p (spaces n ++ i.plain) r := by
  refine (misses_spaces hp n _).append ?_
  cases i with
  | figure f => exact misses_figure hp f r
  | word w =>
      obtain ⟨hhead, htail⟩ := misses_word hp w hr
      obtain ⟨c, t, hw, _⟩ := w.text_cons
      have hfalse : p (w.text ++ r) = false := hhead.trans hi
      show Misses p w.text r
      rw [hw] at hfalse htail ⊢
      exact misses_cons.mpr ⟨hfalse, htail⟩

theorem reader_nil {p : Pattern} (hp : p ∈ readerPatterns) : p [] = false := by
  simp only [readerPatterns, pricePatterns, currencies, List.map_cons, List.map_nil, List.mem_cons,
    List.cons_append, List.nil_append, List.not_mem_nil, or_false] at hp
  rcases hp with rfl | rfl | rfl | rfl | rfl | rfl | rfl | rfl | rfl | rfl | rfl <;> rfl

/-- **A pattern occurs where it is one of the words.** -/
theorem occurs_tokens {p : Pattern} (hp : p ∈ readerPatterns) (width : ℕ → ℕ) (ts : List Token) :
    occurs p (render width Item.plain ts) = ts.any fun t => holds p t.2 := by
  induction ts with
  | nil =>
      show (if p [] then some 0 else none).isSome = false
      rw [reader_nil hp]
      rfl
  | cons t ts ih =>
      have hjoins := joins_render width ts
      have hcons := render_cons width Item.plain t ts []
      rw [List.append_nil, List.append_nil] at hcons
      rw [hcons, List.any_cons, ← ih]
      cases hi : holds p t.2 with
      | false =>
          rw [← List.append_assoc, occurs_append (misses_token hp _ hi hjoins)]
          rfl
      | true =>
          obtain ⟨n, w | f⟩ := t
          · rw [occurs_append (misses_spaces hp _ _)]
            exact occurs_of_match ((misses_word hp w hjoins).1.trans hi)
          · cases hi

/-! ### Scales -/

def scaleOf : Item → Option Scale
  | .word (.scale s) => some s
  | _ => none

/-- The scale words, in their order. -/
def scalesOf (ts : List Token) : List Scale := ts.filterMap fun t => scaleOf t.2

theorem mem_scalesOf {s : Scale} {ts : List Token} :
    s ∈ scalesOf ts ↔ ts.any (fun t => scaleOf t.2 = some s) = true := by
  simp [scalesOf]

/-- The largest scale, one without any. -/
def largest (ss : List Scale) : ℕ := (ss.map Scale.value).foldr max 1

theorem largest_eq (ss : List Scale) : largest ss =
    if Scale.milliard ∈ ss then 1000000000
    else if Scale.million ∈ ss then 1000000 else if Scale.thousand ∈ ss then 1000 else 1 := by
  induction ss with
  | nil => rfl
  | cons s ss ih =>
      show max s.value (largest ss) = _
      rw [ih]
      cases s <;> simp only [List.mem_cons, Scale.value, reduceCtorEq, false_or, true_or, if_true] <;>
        split_ifs <;> rfl

/-- A pattern of a scale takes the words of that scale, and no others. -/
theorem occurs_scale {p : Pattern} (hp : p ∈ readerPatterns) {s : Scale}
    (hs : ∀ w : Word, p w.text = decide (w = .scale s)) (width : ℕ → ℕ) (ts : List Token) :
    occurs p (render width Item.plain ts) = decide (s ∈ scalesOf ts) := by
  have hitem : ∀ i, holds p i = decide (scaleOf i = some s) := by
    intro i
    rcases i with (t | _ | u) | f
    · show p (Word.scale t).text = _
      rw [hs]
      simp [scaleOf]
    · exact (hs _).trans (by simp [scaleOf])
    · exact (hs _).trans (by simp [scaleOf])
    · rfl
  rw [occurs_tokens hp, Bool.eq_iff_iff, decide_eq_true_eq, mem_scalesOf]
  simp only [hitem]

theorem milliard_word (w : Word) : milliardPattern w.text = decide (w = .scale .milliard) := by
  rcases w with (_ | _ | _) | _ | (_ | _) <;> decide

theorem million_word (w : Word) : millionPattern w.text = decide (w = .scale .million) := by
  rcases w with (_ | _ | _) | _ | (_ | _) <;> decide

theorem thousand_word (w : Word) : thousandPattern w.text = decide (w = .scale .thousand) := by
  rcases w with (_ | _ | _) | _ | (_ | _) <;> decide

theorem price_mem {p : Pattern} (hp : p ∈ pricePatterns) : p ∈ readerPatterns :=
  List.mem_cons_of_mem _ (List.mem_cons_of_mem _ hp)

/-- **The scale found by the list is the largest one**, wherever it stands. -/
theorem firstOf_scales (width : ℕ → ℕ) (ts : List Token) :
    (firstOf scales (render width Item.plain ts)).getD 1 = largest (scalesOf ts) := by
  have hmilliard := occurs_scale (price_mem milliard_mem) milliard_word width ts
  have hmillion := occurs_scale (price_mem million_mem) million_word width ts
  have hthousand := occurs_scale (price_mem thousand_mem) thousand_word width ts
  rw [largest_eq]
  unfold firstOf scales
  rw [List.find?_cons, List.find?_cons, List.find?_cons, hmilliard, hmillion, hthousand]
  split_ifs with h1 h2 h3
  · rw [decide_eq_true h1]
    rfl
  · rw [decide_eq_false h1, decide_eq_true h2]
    rfl
  · rw [decide_eq_false h1, decide_eq_false h2, decide_eq_true h3]
    rfl
  · rw [decide_eq_false h1, decide_eq_false h2, decide_eq_false h3]
    rfl

/-! ### Multipliers -/

/-- A multiplier written at the very start is the one written first. -/
theorem firstMultiplier_start {rest : List Char} {v : ℕ} (h : (0, v) ∈ written rest)
    (hothers : ∀ entry ∈ written rest, entry.1 = 0 → entry.2 = v) : firstMultiplier rest = some v := by
  unfold firstMultiplier
  cases hmin : (written rest).argmin Prod.fst with
  | none =>
      rw [List.argmin_eq_none.mp hmin] at h
      cases h
  | some m =>
      have hmem : m ∈ (written rest).argmin Prod.fst := hmin
      have hle : m.1 ≤ 0 := List.le_of_mem_argmin h hmem
      have hvalue := hothers m (List.argmin_mem hmem) (by omega)
      rw [Option.map_some, hvalue]

theorem argmin_shift (l : List (ℕ × ℕ)) (k : ℕ) :
    (l.map fun entry => (entry.1 + k, entry.2)).argmin Prod.fst =
      (l.argmin Prod.fst).map fun entry => (entry.1 + k, entry.2) := by
  induction l with
  | nil => rfl
  | cons a l ih =>
      rw [List.map_cons, List.argmin_cons, List.argmin_cons, ih]
      cases l.argmin Prod.fst with
      | none => rfl
      | some b =>
          show (if b.1 + k < a.1 + k then _ else _) = Option.map _ (if b.1 < a.1 then _ else _)
          by_cases hlt : b.1 < a.1
          · rw [if_pos hlt, if_pos (by omega)]
            rfl
          · rw [if_neg hlt, if_neg (by omega)]
            rfl

/-- Behind what holds none of them the multipliers are the same. -/
theorem firstMultiplier_append {l r : List Char} (h : ∀ entry ∈ multipliers, Misses entry.1 l r) :
    firstMultiplier (l ++ r) = firstMultiplier r := by
  have hshift : written (l ++ r) = (written r).map fun entry => (entry.1 + l.length, entry.2) := by
    unfold written
    rw [List.map_filterMap]
    refine List.filterMap_congr fun entry hentry => ?_
    rw [searchAt_append (h entry hentry)]
    cases searchAt entry.1 r <;> rfl
  unfold firstMultiplier
  rw [hshift, argmin_shift, Option.map_map]
  rfl

theorem multiplier_mem {entry : Pattern × ℕ} (h : entry ∈ multipliers) : entry.1 ∈ readerPatterns := by
  simp only [multipliers, List.mem_cons, List.not_mem_nil, or_false] at h
  rcases h with rfl | rfl | rfl
  · exact price_mem milliard_mem
  · exact List.mem_cons_self
  · exact List.mem_cons_of_mem _ List.mem_cons_self

/-- A multiplier takes the words of its scale. -/
theorem multiplier_holds {entry : Pattern × ℕ} (h : entry ∈ multipliers) (i : Item) :
    holds entry.1 i = decide ((scaleOf i).map Scale.value = some entry.2) := by
  simp only [multipliers, List.mem_cons, List.not_mem_nil, or_false] at h
  rcases i with w | f
  · rcases h with rfl | rfl | rfl <;> rcases w with (_ | _ | _) | _ | (_ | _) <;> decide
  · rfl

theorem exists_multiplier (s : Scale) : ∃ p, (p, s.value) ∈ multipliers := by
  cases s with
  | milliard => exact ⟨_, List.mem_cons_self⟩
  | million => exact ⟨_, List.mem_cons_of_mem _ List.mem_cons_self⟩
  | thousand => exact ⟨_, List.mem_cons_of_mem _ (List.mem_cons_of_mem _ List.mem_cons_self)⟩

/-- A text that begins with a scale word. -/
theorem firstMultiplier_scale (s : Scale) {r : List Char} (hr : joins r = true) :
    firstMultiplier ((Word.scale s).text ++ r) = some s.value := by
  have hsearch : ∀ entry ∈ multipliers, searchAt entry.1 ((Word.scale s).text ++ r) =
      if s.value = entry.2 then some 0 else (searchAt entry.1 r).map (· + (Word.scale s).text.length) := by
    intro entry hentry
    have hword : entry.1 (Word.scale s).text = decide ((some s).map Scale.value = some entry.2) :=
      multiplier_holds hentry (.word (.scale s))
    rw [searchAt_word (multiplier_mem hentry) _ hr, hword]
    simp
  apply firstMultiplier_start
  · obtain ⟨p, hp⟩ := exists_multiplier s
    refine List.mem_filterMap.mpr ⟨_, hp, ?_⟩
    rw [hsearch _ hp, if_pos rfl]
    rfl
  · intro entry hentry hzero
    obtain ⟨source, hsource, hfound⟩ := List.mem_filterMap.mp hentry
    rw [hsearch source hsource] at hfound
    split at hfound
    · rename_i hvalue
      obtain rfl := Option.some.inj hfound
      exact hvalue.symm
    · obtain ⟨place, hplace, rfl⟩ := Option.map_eq_some_iff.mp hfound
      obtain ⟨later, _, rfl⟩ := Option.map_eq_some_iff.mp hplace
      have hlength : 0 < (Word.scale s).text.length := by cases s <;> decide
      have hsum : later + (Word.scale s).text.length = 0 := hzero
      omega

/-- **The multiplier written first is that of the first scale word.** -/
theorem firstMultiplier_tokens (width : ℕ → ℕ) (ts : List Token) :
    firstMultiplier (render width Item.plain ts) = (scalesOf ts).head?.map Scale.value := by
  induction ts with
  | nil => rfl
  | cons t ts ih =>
      have hjoins := joins_render width ts
      have hcons := render_cons width Item.plain t ts []
      rw [List.append_nil, List.append_nil] at hcons
      rw [hcons]
      cases hscale : scaleOf t.2 with
      | none =>
          have hmiss : ∀ entry ∈ multipliers, Misses entry.1 (spaces (width t.1) ++ t.2.plain)
              (render width Item.plain ts) := by
            intro entry hentry
            refine misses_token (multiplier_mem hentry) _ ?_ hjoins
            rw [multiplier_holds hentry, hscale]
            rfl
          have hskip : scalesOf (t :: ts) = scalesOf ts := List.filterMap_cons_none hscale
          rw [← List.append_assoc, firstMultiplier_append hmiss, ih, hskip]
      | some s =>
          have hfirst : scalesOf (t :: ts) = s :: scalesOf ts := List.filterMap_cons_some hscale
          rw [firstMultiplier_append fun entry hentry => misses_spaces (multiplier_mem hentry) _ _, hfirst]
          obtain ⟨n, (s' | _ | _) | f⟩ := t
          · obtain rfl := Option.some.inj hscale
            exact firstMultiplier_scale _ hjoins
          · cases hscale
          · cases hscale
          · cases hscale

end TransportBackend.PriceWords
