import TransportBackend.TrimmedTexts

/-!
# Prices of one figure or of a range

A price is written as a figure, or as two figures with «تا» between them; a figure has digits of any of
three scripts, may be grouped in threes and may have decimals, a scale word may follow each figure, and
the unit may end the text.  `PriceForm` says so.

* `TypedFigure`, `PriceForm`: a figure and a price as they are typed;
* `PriceForm.tokens`: the words and the figure after the first figure;
* `cleaned_text`: **what the reader of the totals sees** of it.
-/

namespace TransportBackend.PriceForms

open TransportBackend.DoubleRange
open TransportBackend.MoneyTexts
open TransportBackend.PriceTexts
open TransportBackend.TextPatterns
open TransportBackend.TrimmedTexts
open TransportBackend.TripFareRules

/-! ### Figures -/

/-- A Latin, Persian or Arabic digit. -/
def isAnyDigit (c : Char) : Bool := (latinDigit c).isDigit

/-- A group of three digits and what is written before it. -/
structure Group where
  separator : Char
  first : Char
  second : Char
  third : Char
  separated : separator = '٬' ∨ separator = ','
  digits : isAnyDigit first = true ∧ isAnyDigit second = true ∧ isAnyDigit third = true

/-- A point and the digits after it. -/
structure Decimals where
  point : Char
  digits : List Char
  pointed : point = '.' ∨ point = '٫'
  nonempty : digits ≠ []
  all : ∀ c ∈ digits, isAnyDigit c = true

/-- A figure as it is typed. -/
structure TypedFigure where
  lead : List Char
  groups : List Group
  decimals : Option Decimals
  nonempty : lead ≠ []
  all : ∀ c ∈ lead, isAnyDigit c = true

/-- With its separator or without. -/
def Group.text (g : Group) : List Char := [g.separator, g.first, g.second, g.third]

def Group.plain (g : Group) : List Char := latin [g.first, g.second, g.third]

def Decimals.text (d : Decimals) : List Char := d.point :: d.digits

def TypedFigure.text (f : TypedFigure) : List Char :=
  f.lead ++ (f.groups.flatMap Group.text ++ f.decimals.elim [] Decimals.text)

/-- The digits before the point. -/
def TypedFigure.whole (f : TypedFigure) : List Char := latin f.lead ++ f.groups.flatMap Group.plain

/-- The digits after it. -/
def TypedFigure.fraction (f : TypedFigure) : List Char := f.decimals.elim [] fun d => latin d.digits

/-- The figure that is read. -/
def TypedFigure.figure (f : TypedFigure) : Figure := ⟨f.whole, f.fraction⟩

/-- The figure in Latin digits, without separators. -/
def TypedFigure.bare (f : TypedFigure) : List Char :=
  f.whole ++ f.decimals.elim [] fun d => d.point :: latin d.digits

def TypedFigure.plain (f : TypedFigure) : List Char :=
  f.whole ++ f.decimals.elim [] fun d => '.' :: latin d.digits

/-! ### Words -/

inductive Scale where
  | thousand
  | million
  | milliard
  deriving DecidableEq

def Scale.value : Scale → ℕ
  | .thousand => 1000
  | .million => 1000000
  | .milliard => 1000000000

inductive PriceUnit where
  | toman
  | rial
  deriving DecidableEq

inductive Word where
  | scale (s : Scale)
  | upTo
  | unit (u : PriceUnit)
  deriving DecidableEq

def Word.text : Word → List Char
  | .scale .thousand => thousand
  | .scale .million => million
  | .scale .milliard => milliard
  | .upTo => ['ت', 'ا']
  | .unit .toman => toman
  | .unit .rial => rial

/-! ### Texts -/

/-- What may follow the first figure. -/
inductive Item where
  | word (w : Word)
  | figure (f : TypedFigure)

/-- An item and the number of spaces before it. -/
abbrev Token : Type := ℕ × Item

/-- As it is typed, in Latin digits, without separators, and as it is read. -/
def Item.text : Item → List Char
  | .word w => w.text
  | .figure f => f.text

def Item.latin (i : Item) : List Char := PriceTexts.latin i.text

def Item.bare : Item → List Char
  | .word w => w.text
  | .figure f => f.bare

def Item.plain : Item → List Char
  | .word w => w.text
  | .figure f => f.plain

def spaces (n : ℕ) : List Char := List.replicate n ' '

/-- The tokens one after the other, with so many of each run of spaces. -/
def render (width : ℕ → ℕ) (item : Item → List Char) (tokens : List Token) : List Char :=
  tokens.flatMap fun t => spaces (width t.1) ++ item t.2

/-- The second end of a range: «تا», the figure, and its scale. -/
structure RangeEnd where
  gap : ℕ
  figureGap : ℕ
  figure : TypedFigure
  scale : Option (ℕ × Scale)

/-- A price as it is typed; the numbers are those of the spaces before each part. -/
structure PriceForm where
  before : ℕ
  figure : TypedFigure
  scale : Option (ℕ × Scale)
  range : Option RangeEnd
  unit : Option (ℕ × PriceUnit)
  after : ℕ

def scaleToken (entry : ℕ × Scale) : Token := (entry.1, .word (.scale entry.2))

def unitToken (entry : ℕ × PriceUnit) : Token := (entry.1, .word (.unit entry.2))

def RangeEnd.tokens (range : RangeEnd) : List Token :=
  [(range.gap, .word .upTo), (range.figureGap, .figure range.figure)] ++ (range.scale.map scaleToken).toList

/-- What follows the first figure. -/
def PriceForm.tokens (p : PriceForm) : List Token :=
  (p.scale.map scaleToken).toList ++
    (p.range.elim [] RangeEnd.tokens ++ (p.unit.map unitToken).toList)

def PriceForm.text (p : PriceForm) : List Char :=
  spaces p.before ++ (p.figure.text ++ (render id Item.text p.tokens ++ spaces p.after))

/-! ### Digits, letters and spaces -/

theorem isDigit_latin {ds : List Char} (h : ∀ c ∈ ds, isAnyDigit c = true) : ∀ c ∈ latin ds, c.isDigit = true := by
  intro c hc
  obtain ⟨d, hd, rfl⟩ := List.mem_map.mp hc
  exact h d hd

theorem Group.isDigit_plain (g : Group) : ∀ c ∈ g.plain, c.isDigit = true := by
  refine isDigit_latin fun c hc => ?_
  simp only [List.mem_cons, List.not_mem_nil, or_false] at hc
  rcases hc with rfl | rfl | rfl
  · exact g.digits.1
  · exact g.digits.2.1
  · exact g.digits.2.2

theorem TypedFigure.isDigit_whole (f : TypedFigure) : ∀ c ∈ f.whole, c.isDigit = true := by
  intro c hc
  rcases List.mem_append.mp hc with hc | hc
  · exact isDigit_latin f.all c hc
  · obtain ⟨g, _, hc⟩ := List.mem_flatMap.mp hc
    exact g.isDigit_plain c hc

theorem Decimals.isDigit_digits (d : Decimals) : ∀ c ∈ latin d.digits, c.isDigit = true := isDigit_latin d.all

theorem TypedFigure.whole_ne_nil (f : TypedFigure) : f.whole ≠ [] := by
  intro h
  obtain ⟨hlead, _⟩ := List.append_eq_nil_iff.mp h
  exact f.nonempty (List.map_eq_nil_iff.mp hlead)

/-- The letters of the words. -/
def letters : List Char := ['م', 'ی', 'ل', 'ا', 'ر', 'د', 'و', 'ن', 'ه', 'ز', 'ت']

theorem Word.mem_letters (w : Word) : ∀ c ∈ w.text, c ∈ letters := by
  have hall : w.text.all (· ∈ letters) = true := by
    cases w with
    | scale s => cases s <;> decide
    | upTo => decide
    | unit u => cases u <;> decide
  intro c hc
  simpa using List.all_eq_true.mp hall c hc

/-- A letter is none of the characters that the readers change or leave out. -/
theorem letter_kept {c : Char} (hc : c ∈ letters) :
    latinDigit c = c ∧ isJsSpace c = false ∧ c.isDigit = false ∧ isGroupSeparator c = false ∧
      Plain c ∧ isInvisible c = false ∧ persianLetter c = c := by
  have hall : letters.all (fun c => latinDigit c == c && (!isJsSpace c && (!c.isDigit &&
      (!isGroupSeparator c && ((!(c == '٬' || c == ',' || c == '،') && c != '٫') &&
        (!isInvisible c && persianLetter c == c)))))) = true := by decide
  have hone := List.all_eq_true.mp hall c hc
  simp only [Bool.and_eq_true, Bool.not_eq_true', beq_iff_eq, bne_iff_ne] at hone
  exact hone

theorem digit_not_groupSeparator {c : Char} (h : c.isDigit = true) : isGroupSeparator c = false := by
  rcases digit_cases h with rfl | rfl | rfl | rfl | rfl | rfl | rfl | rfl | rfl | rfl <;> decide

/-- A word is not empty. -/
theorem Word.text_cons (w : Word) : ∃ c t, w.text = c :: t ∧ c ∈ letters := by
  obtain ⟨c, t, h⟩ : ∃ c t, w.text = c :: t := by
    cases w with
    | scale s => cases s <;> exact ⟨_, _, rfl⟩
    | upTo => exact ⟨_, _, rfl⟩
    | unit u => cases u <;> exact ⟨_, _, rfl⟩
  exact ⟨c, t, h, w.mem_letters c (by rw [h]; exact List.mem_cons_self)⟩

/-! ### One token after the other -/

section Render

variable (width : ℕ → ℕ) (item : Item → List Char)

theorem render_cons (t : Token) (ts : List Token) (r : List Char) :
    render width item (t :: ts) ++ r = spaces (width t.1) ++ (item t.2 ++ (render width item ts ++ r)) := by
  unfold render
  rw [List.flatMap_cons, List.append_assoc, List.append_assoc]

/-- What is done to each character is done to each token. -/
theorem render_map {f : Char → Char} (hf : f ' ' = ' ') (ts : List Token) :
    (render width item ts).map f = render width (fun i => (item i).map f) ts := by
  unfold render
  rw [List.map_flatMap]
  congr 1
  funext t
  rw [List.map_append]
  congr 1
  unfold spaces
  rw [List.map_replicate, hf]

end Render

/-! ### The separators of `parseCargoPrice` -/

theorem withoutSeparators_digits {ds : List Char} (h : ∀ c ∈ ds, c.isDigit = true) (r : List Char) :
    withoutSeparators (ds ++ r) = ds ++ withoutSeparators r :=
  omitWhere_append fun c hc t => by rw [digit_not_separator (h c hc), Bool.false_and]

theorem withoutSeparators_group (g : Group) (r : List Char) :
    withoutSeparators (latin g.text ++ r) = g.plain ++ withoutSeparators r := by
  have hthree : threeDigits (g.plain ++ r) = true := by
    show ((latinDigit g.first).isDigit && (latinDigit g.second).isDigit && (latinDigit g.third).isDigit) = true
    rw [Bool.and_eq_true, Bool.and_eq_true]
    exact ⟨⟨g.digits.1, g.digits.2.1⟩, g.digits.2.2⟩
  have hseparator : (latinDigit g.separator == '٬' || latinDigit g.separator == ',' ||
      latinDigit g.separator == '،') = true := by
    rcases g.separated with h | h <;> rw [h] <;> decide
  have hout : withoutSeparators (latin g.text ++ r) = withoutSeparators (g.plain ++ r) := by
    show (if _ && threeDigits (g.plain ++ r) then _ else _) = _
    rw [hthree, hseparator]
    rfl
  rw [hout, withoutSeparators_digits g.isDigit_plain]

theorem withoutSeparators_groups (gs : List Group) (r : List Char) :
    withoutSeparators (latin (gs.flatMap Group.text) ++ r) = gs.flatMap Group.plain ++ withoutSeparators r := by
  induction gs with
  | nil => rfl
  | cons g gs ih =>
      rw [List.flatMap_cons, List.flatMap_cons, latin_append, List.append_assoc, withoutSeparators_group, ih,
        List.append_assoc]

theorem latin_point {c : Char} (h : c = '.' ∨ c = '٫') : latinDigit c = c := by
  rcases h with rfl | rfl <;> decide

theorem withoutSeparators_figure (f : TypedFigure) (r : List Char) :
    withoutSeparators (latin f.text ++ r) = f.bare ++ withoutSeparators r := by
  have hdecimals : withoutSeparators (latin (f.decimals.elim [] Decimals.text) ++ r) =
      (f.decimals.elim [] fun d => d.point :: latin d.digits) ++ withoutSeparators r := by
    cases f.decimals with
    | none => rfl
    | some d =>
        have hpoint : (d.point == '٬' || d.point == ',' || d.point == '،') = false := by
          rcases d.pointed with h | h <;> rw [h] <;> decide
        show withoutSeparators (latinDigit d.point :: (latin d.digits ++ r)) = _
        rw [latin_point d.pointed]
        have hstays : withoutSeparators (d.point :: (latin d.digits ++ r)) =
            d.point :: withoutSeparators (latin d.digits ++ r) := by
          show (if (d.point == '٬' || d.point == ',' || d.point == '،') && _ then _ else _) = _
          rw [hpoint]
          rfl
        rw [hstays, withoutSeparators_digits d.isDigit_digits]
        rfl
  unfold TypedFigure.text TypedFigure.bare TypedFigure.whole
  rw [latin_append, latin_append, List.append_assoc, List.append_assoc,
    withoutSeparators_digits (isDigit_latin f.all), withoutSeparators_groups, hdecimals, List.append_assoc,
    List.append_assoc]

theorem latin_word (w : Word) : latin w.text = w.text :=
  latin_self fun c hc => (letter_kept (w.mem_letters c hc)).1

theorem withoutSeparators_item (i : Item) (r : List Char) :
    withoutSeparators (i.latin ++ r) = i.bare ++ withoutSeparators r := by
  cases i with
  | figure f => exact withoutSeparators_figure f r
  | word w =>
      show withoutSeparators (latin w.text ++ r) = w.text ++ withoutSeparators r
      rw [latin_word]
      refine omitWhere_append fun c hc t => ?_
      obtain ⟨_, _, _, _, ⟨hkept, _⟩, _⟩ := letter_kept (w.mem_letters c hc)
      rw [hkept, Bool.false_and]

theorem withoutSeparators_spaces (n : ℕ) (r : List Char) :
    withoutSeparators (spaces n ++ r) = spaces n ++ withoutSeparators r := by
  refine omitWhere_append fun c hc t => ?_
  rw [List.eq_of_mem_replicate hc]
  rfl

theorem withoutSeparators_render (width : ℕ → ℕ) (ts : List Token) (r : List Char) :
    withoutSeparators (render width Item.latin ts ++ r) = render width Item.bare ts ++ withoutSeparators r := by
  induction ts with
  | nil => rfl
  | cons t ts ih =>
      rw [render_cons, withoutSeparators_spaces, withoutSeparators_item, ih, ← render_cons]

/-! ### Points -/

theorem pointed_append (s t : List Char) : pointed (s ++ t) = pointed s ++ pointed t := List.map_append

theorem pointed_digits {ds : List Char} (h : ∀ c ∈ ds, c.isDigit = true) : pointed ds = ds :=
  pointed_self fun c hc => digit_not_point (h c hc)

theorem pointed_figure (f : TypedFigure) : pointed f.bare = f.plain := by
  unfold TypedFigure.bare TypedFigure.plain
  rw [pointed_append, pointed_digits f.isDigit_whole]
  congr 1
  cases f.decimals with
  | none => rfl
  | some d =>
      show (if d.point == '٫' then '.' else d.point) :: pointed (latin d.digits) = '.' :: latin d.digits
      rw [pointed_digits d.isDigit_digits]
      rcases d.pointed with h | h <;> rw [h] <;> rfl

theorem pointed_item (i : Item) : pointed i.bare = i.plain := by
  cases i with
  | figure f => exact pointed_figure f
  | word w => exact pointed_self fun c hc => (letter_kept (w.mem_letters c hc)).2.2.2.2.1.2

theorem pointed_render (width : ℕ → ℕ) (ts : List Token) :
    pointed (render width Item.bare ts) = render width Item.plain ts := by
  have hitems : (fun i => pointed (Item.bare i)) = Item.plain := funext pointed_item
  rw [← hitems]
  exact render_map width Item.bare (by decide) ts

theorem latin_render (width : ℕ → ℕ) (ts : List Token) :
    latin (render width Item.text ts) = render width Item.latin ts :=
  render_map width Item.text (by decide) ts

/-! ### Spaces -/

theorem blank_spaces (n : ℕ) : Blank (spaces n) := fun c hc => by
  rw [List.eq_of_mem_replicate hc]
  rfl

/-- Something without a space. -/
def Solid (l : List Char) : Prop := l ≠ [] ∧ ∀ c ∈ l, isJsSpace c = false

theorem Solid.last {l : List Char} (h : Solid l) : ∃ v d, l = v ++ [d] ∧ isJsSpace d = false :=
  ⟨l.dropLast, l.getLast h.1, (List.dropLast_append_getLast h.1).symm, h.2 _ (List.getLast_mem h.1)⟩

theorem Solid.append {l m : List Char} (hl : Solid l) (hm : Solid m) : Solid (l ++ m) := by
  refine ⟨fun h => hl.1 (List.append_eq_nil_iff.mp h).1, fun c hc => ?_⟩
  rcases List.mem_append.mp hc with hc | hc
  · exact hl.2 c hc
  · exact hm.2 c hc

/-- The last character is none to be trimmed. -/
theorem render_last {item : Item → List Char} (hitem : ∀ i, Solid (item i)) {l : List Char} (hl : Solid l)
    (width : ℕ → ℕ) (ts : List Token) :
    ∃ v d, l ++ render width item ts = v ++ [d] ∧ isJsSpace d = false := by
  induction ts generalizing l with
  | nil =>
      obtain ⟨v, d, h, hd⟩ := hl.last
      exact ⟨v, d, by rw [← h]; exact List.append_nil l, hd⟩
  | cons t ts ih =>
      obtain ⟨v, d, h, hd⟩ := ih (hitem t.2)
      refine ⟨l ++ (spaces (width t.1) ++ v), d, ?_, hd⟩
      have hcons := render_cons width item t ts []
      rw [List.append_nil, List.append_nil, h] at hcons
      rw [hcons, List.append_assoc, List.append_assoc]

theorem trim_render {item : Item → List Char} (hitem : ∀ i, Solid (item i)) {l : List Char} (hl : Solid l)
    (width : ℕ → ℕ) (ts : List Token) (before after : ℕ) :
    trim (spaces before ++ (l ++ (render width item ts ++ spaces after))) = l ++ render width item ts := by
  obtain ⟨c, u, rfl⟩ := List.exists_cons_of_ne_nil hl.1
  obtain ⟨v, d, hlast, hd⟩ := render_last hitem hl width ts
  rw [← List.append_assoc (c :: u), trim_around (blank_spaces before) (blank_spaces after)]
  exact trim_self (c := c) (u := u ++ render width item ts) rfl hlast (hl.2 c List.mem_cons_self) hd

theorem solid_digits {ds : List Char} (hne : ds ≠ []) (h : ∀ c ∈ ds, c.isDigit = true) : Solid ds :=
  ⟨hne, fun c hc => digit_not_space (h c hc)⟩

theorem solid_word (w : Word) : Solid w.text := by
  obtain ⟨c, t, h, _⟩ := w.text_cons
  exact ⟨by rw [h]; exact List.cons_ne_nil c t, fun c hc => (letter_kept (w.mem_letters c hc)).2.1⟩

theorem solid_plain (f : TypedFigure) : Solid f.plain := by
  have hwhole := solid_digits f.whole_ne_nil f.isDigit_whole
  unfold TypedFigure.plain
  cases f.decimals with
  | none => exact (List.append_nil f.whole).symm ▸ hwhole
  | some d =>
      refine hwhole.append ⟨List.cons_ne_nil _ _, fun c hc => ?_⟩
      rcases List.mem_cons.mp hc with rfl | hc
      · decide
      · exact digit_not_space (d.isDigit_digits c hc)

theorem solid_item (i : Item) : Solid i.plain := by
  cases i with
  | word w => exact solid_word w
  | figure f => exact solid_plain f

/-- **What the reader of the totals sees.** -/
theorem cleaned_text (p : PriceForm) : cleaned p.text = p.figure.plain ++ render id Item.plain p.tokens := by
  have hspaces : ∀ n, latin (spaces n) = spaces n ∧ pointed (spaces n) = spaces n := fun n =>
    ⟨latin_blank (blank_spaces n), pointed_blank (blank_spaces n)⟩
  have hafter : withoutSeparators (spaces p.after) = spaces p.after := by
    have h := withoutSeparators_spaces p.after []
    rwa [List.append_nil, withoutSeparators, omitWhere, List.append_nil] at h
  unfold cleaned PriceForm.text
  rw [latin_append, latin_append, latin_append, latin_render, (hspaces _).1, (hspaces _).1,
    withoutSeparators_spaces, withoutSeparators_figure, withoutSeparators_render, hafter, pointed_append,
    pointed_append, pointed_append, (hspaces _).2, (hspaces _).2, pointed_figure, pointed_render,
    trim_render solid_item (solid_plain p.figure)]

end TransportBackend.PriceForms
