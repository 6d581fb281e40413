import TransportBackend.PriceForms

/-!
# Prices as the filters read them

The reader of the filters normalizes a text before it leaves the separators of its groups out: runs of
spaces come to one, and a separator goes between a digit and three more.

* `normalized_text`: **it sees the same figure and words as the reader of the totals**;
* `firstFigure_tokens`: what either of them reads first is the first figure.
-/

namespace TransportBackend.PriceGroups

open TransportBackend.MoneyTexts
open TransportBackend.PriceForms
open TransportBackend.PriceTexts
open TransportBackend.TextPatterns
open TransportBackend.TrimmedTexts
open TransportBackend.TripFareRules

/-! ### Runs of spaces -/

theorem collapse_solid {l : List Char} (hl : Solid l) (inRun : Bool) (r : List Char) :
    collapseSpaces inRun (l ++ r) = l ++ collapseSpaces false r := by
  obtain ⟨hne, hall⟩ := hl
  induction l generalizing inRun with
  | nil => exact absurd rfl hne
  | cons c l ih =>
      rw [List.cons_append, collapseSpaces, hall c List.mem_cons_self]
      show c :: collapseSpaces false (l ++ r) = _
      cases l with
      | nil => rfl
      | cons d l =>
          rw [ih false (List.cons_ne_nil d l) fun a ha => hall a (List.mem_cons_of_mem c ha)]
          rfl

theorem collapse_run (n : ℕ) (r : List Char) : collapseSpaces true (spaces n ++ r) = collapseSpaces true r := by
  induction n with
  | zero => rfl
  | succ n ih => exact ih

/-- A run of spaces comes to one. -/
theorem collapse_spaces (n : ℕ) {l : List Char} (hl : Solid l) (r : List Char) :
    collapseSpaces false (spaces n ++ (l ++ r)) = spaces (min 1 n) ++ (l ++ collapseSpaces false r) := by
  cases n with
  | zero => exact collapse_solid hl false r
  | succ n =>
      have hone : min 1 (n + 1) = 1 := by omega
      rw [hone]
      show ' ' :: collapseSpaces true (spaces n ++ (l ++ r)) = ' ' :: (l ++ collapseSpaces false r)
      rw [collapse_run, collapse_solid hl]

theorem collapse_after (n : ℕ) : collapseSpaces false (spaces n) = spaces (min 1 n) := by
  cases n with
  | zero => rfl
  | succ n =>
      have hone : min 1 (n + 1) = 1 := by omega
      have hrun := collapse_run n []
      rw [List.append_nil] at hrun
      rw [hone]
      show ' ' :: collapseSpaces true (spaces n) = [' ']
      rw [hrun]
      rfl

theorem collapse_render {item : Item → List Char} (hitem : ∀ i, Solid (item i)) (ts : List Token) (after : ℕ) :
    collapseSpaces false (render id item ts ++ spaces after) =
      render (min 1) item ts ++ spaces (min 1 after) := by
  induction ts with
  | nil => exact collapse_after after
  | cons t ts ih => rw [render_cons, render_cons, id_eq, collapse_spaces t.1 (hitem t.2), ih]

/-! ### What is normalized -/

/-- The characters of a price. -/
def isPriceChar (c : Char) : Bool := isAnyDigit c || c ∈ letters || c ∈ [' ', '٬', ',', '.', '٫']

theorem anyDigit_code {c : Char} (h : isAnyDigit c = true) :
    (48 ≤ c.toNat ∧ c.toNat ≤ 57) ∨ (0x660 ≤ c.toNat ∧ c.toNat ≤ 0x669) ∨
      (0x6F0 ≤ c.toNat ∧ c.toNat ≤ 0x6F9) := by
  unfold isAnyDigit latinDigit at h
  split at h
  · omega
  · split at h
    · omega
    · simp only [Char.isDigit, Bool.and_eq_true, decide_eq_true_eq, ge_iff_le, UInt32.le_iff_toNat_le] at h
      exact .inl h

theorem anyDigit_kept {c : Char} (h : isAnyDigit c = true) : isInvisible c = false ∧ persianLetter c = c := by
  have hcode := anyDigit_code h
  constructor
  · simp only [isInvisible, Bool.or_eq_false_iff, Bool.and_eq_false_iff, decide_eq_false_iff_not, beq_eq_false_iff_ne]
    omega
  · have hne : c ≠ 'ي' ∧ c ≠ 'ى' ∧ c ≠ 'ك' := by
      refine ⟨?_, ?_, ?_⟩ <;> rintro rfl <;> revert hcode <;> decide
    unfold persianLetter
    rw [if_neg fun h => h.elim hne.1 hne.2.1, if_neg hne.2.2]

theorem priceChar_kept {c : Char} (h : isPriceChar c = true) : isInvisible c = false ∧ persianLetter c = c := by
  unfold isPriceChar at h
  rw [Bool.or_eq_true, Bool.or_eq_true, decide_eq_true_eq, decide_eq_true_eq] at h
  rcases h with (h | h) | h
  · exact anyDigit_kept h
  · exact (letter_kept h).2.2.2.2.2
  · simp only [List.mem_cons, List.not_mem_nil, or_false] at h
    rcases h with rfl | rfl | rfl | rfl | rfl <;> decide

/-- A digit in Latin is one. -/
theorem priceChar_latin {c : Char} (h : isPriceChar c = true) : isPriceChar (latinDigit c) = true := by
  unfold isPriceChar at h
  rw [Bool.or_eq_true, Bool.or_eq_true, decide_eq_true_eq, decide_eq_true_eq] at h
  rcases h with (h | h) | h
  · have hdigit : (latinDigit c).isDigit = true := h
    have htwice : isAnyDigit (latinDigit c) = true := by
      rcases digit_cases hdigit with h | h | h | h | h | h | h | h | h | h <;> rw [h] <;> decide
    unfold isPriceChar
    rw [htwice]
    rfl
  · rw [(letter_kept h).1]
    unfold isPriceChar
    rw [decide_eq_true h, Bool.or_true, Bool.true_or]
  · simp only [List.mem_cons, List.not_mem_nil, or_false] at h
    rcases h with rfl | rfl | rfl | rfl | rfl <;> decide

/-- Normalizing leaves a price as it is: its characters have no other form and no other case. -/
def KeepsPrices (n : Normalizer) : Prop :=
  ∀ t, (∀ c ∈ t, isPriceChar c = true) → n.nfkc t = t ∧ n.lowerCase t = t

theorem figure_chars (f : TypedFigure) : ∀ c ∈ f.text, isAnyDigit c = true ∨ c ∈ ['٬', ',', '.', '٫'] := by
  intro c hc
  rcases List.mem_append.mp hc with hc | hc
  · exact .inl (f.all c hc)
  rcases List.mem_append.mp hc with hc | hc
  · obtain ⟨g, _, hc⟩ := List.mem_flatMap.mp hc
    simp only [Group.text, List.mem_cons, List.not_mem_nil, or_false] at hc
    rcases hc with rfl | rfl | rfl | rfl
    · rcases g.separated with h | h <;> simp [h]
    · exact .inl g.digits.1
    · exact .inl g.digits.2.1
    · exact .inl g.digits.2.2
  · cases hdecimals : f.decimals with
    | none =>
        rw [hdecimals] at hc
        cases hc
    | some d =>
        rw [hdecimals] at hc
        rcases List.mem_cons.mp hc with rfl | hc
        · rcases d.pointed with h | h <;> simp [h]
        · exact .inl (d.all c hc)

theorem figure_ne_nil (f : TypedFigure) : f.text ≠ [] := fun h => f.nonempty (List.append_eq_nil_iff.mp h).1

/-- A figure in Latin digits has no space in it. -/
theorem solid_latin (f : TypedFigure) : Solid (latin f.text) := by
  refine ⟨fun h => figure_ne_nil f (List.map_eq_nil_iff.mp h), fun c hc => ?_⟩
  obtain ⟨d, hd, rfl⟩ := List.mem_map.mp hc
  rcases figure_chars f d hd with h | h
  · exact digit_not_space h
  · simp only [List.mem_cons, List.not_mem_nil, or_false] at h
    rcases h with rfl | rfl | rfl | rfl <;> decide

theorem solid_item_latin (i : Item) : Solid i.latin := by
  cases i with
  | word w =>
      have h := solid_word w
      rwa [← latin_word] at h
  | figure f => exact solid_latin f

theorem item_chars (i : Item) : ∀ c ∈ i.text, isPriceChar c = true := by
  intro c hc
  cases i with
  | word w => simp [isPriceChar, w.mem_letters c hc]
  | figure f =>
      rcases figure_chars f c hc with h | h
      · simp [isPriceChar, h]
      · simp only [List.mem_cons, List.not_mem_nil, or_false] at h
        rcases h with rfl | rfl | rfl | rfl <;> decide

theorem spaces_chars (n : ℕ) : ∀ c ∈ spaces n, isPriceChar c = true := fun c hc => by
  rw [List.eq_of_mem_replicate hc]
  decide

theorem text_chars (p : PriceForm) : ∀ c ∈ p.text, isPriceChar c = true := by
  intro c hc
  rcases List.mem_append.mp hc with hc | hc
  · exact spaces_chars _ c hc
  rcases List.mem_append.mp hc with hc | hc
  · exact item_chars (.figure p.figure) c hc
  rcases List.mem_append.mp hc with hc | hc
  · obtain ⟨t, _, hc⟩ := List.mem_flatMap.mp hc
    rcases List.mem_append.mp hc with hc | hc
    · exact spaces_chars _ c hc
    · exact item_chars t.2 c hc
  · exact spaces_chars _ c hc

/-- The text before the separators of its groups are left out. -/
theorem normalized_spaces {n : Normalizer} (hn : KeepsPrices n) (p : PriceForm) :
    normalizePersianText n p.text = latin p.figure.text ++ render (min 1) Item.latin p.tokens := by
  have hspaces : ∀ k, latin (spaces k) = spaces k := fun k => latin_blank (blank_spaces k)
  have hvisible : p.text.filter (fun c => !isInvisible c) = p.text :=
    List.filter_eq_self.mpr fun c hc => by rw [(priceChar_kept (text_chars p c hc)).1]; rfl
  have hletters : p.text.map persianLetter = p.text :=
    (List.map_congr_left fun c hc => (priceChar_kept (text_chars p c hc)).2).trans (List.map_id _)
  have hlatin : latin p.text = spaces p.before ++
      (latin p.figure.text ++ (render id Item.latin p.tokens ++ spaces p.after)) := by
    unfold PriceForm.text
    rw [latin_append, latin_append, latin_append, latin_render, hspaces, hspaces]
  have htrim : trim (collapseSpaces false (latin p.text)) =
      latin p.figure.text ++ render (min 1) Item.latin p.tokens := by
    rw [hlatin, collapse_spaces _ (solid_latin p.figure), collapse_render solid_item_latin,
      trim_render solid_item_latin (solid_latin p.figure)]
  have hchars : ∀ c ∈ latin p.figure.text ++ render (min 1) Item.latin p.tokens, isPriceChar c = true := by
    have hitem : ∀ i : Item, ∀ c ∈ i.latin, isPriceChar c = true := by
      intro i c hc
      obtain ⟨d, hd, rfl⟩ := List.mem_map.mp hc
      exact priceChar_latin (item_chars i d hd)
    intro c hc
    rcases List.mem_append.mp hc with hc | hc
    · exact hitem (.figure p.figure) c hc
    obtain ⟨t, _, hc⟩ := List.mem_flatMap.mp hc
    rcases List.mem_append.mp hc with hc | hc
    · exact spaces_chars _ c hc
    · exact hitem t.2 c hc
  unfold normalizePersianText
  rw [(hn _ (text_chars p)).1, hvisible, hletters, htrim, (hn _ hchars).2]

/-! ### The groups of `parsePriceToman` -/

/-- No group is told off by what comes next. -/
def noGroup : List Char → Bool
  | d :: t => !(isGroupSeparator d && groupFollows t)
  | [] => true

theorem withoutGroups_cons {c : Char} {r : List Char} (h : c.isDigit = false ∨ noGroup r = true) :
    withoutGroups (c :: r) = c :: withoutGroups r := by
  cases r with
  | nil => rfl
  | cons d t =>
      have hno : ¬(c.isDigit && isGroupSeparator d && groupFollows t) = true := by
        rcases h with h | h
        · simp [h]
        · have hd : (isGroupSeparator d && groupFollows t) = false := by
            simpa only [noGroup, Bool.not_eq_true'] using h
          rw [Bool.and_assoc, hd, Bool.and_false]
          exact Bool.false_ne_true
      rw [withoutGroups, if_neg hno]

theorem withoutGroups_append {l : List Char} (h : ∀ c ∈ l, c.isDigit = false) (r : List Char) :
    withoutGroups (l ++ r) = l ++ withoutGroups r := by
  induction l with
  | nil => rfl
  | cons c l ih =>
      rw [List.cons_append, withoutGroups_cons (.inl (h c List.mem_cons_self)),
        ih fun a ha => h a (List.mem_cons_of_mem c ha), List.cons_append]

theorem withoutGroups_digits {ds : List Char} (h : ∀ c ∈ ds, c.isDigit = true) {r : List Char}
    (hr : noGroup r = true) : withoutGroups (ds ++ r) = ds ++ withoutGroups r := by
  induction ds with
  | nil => rfl
  | cons d ds ih =>
      have hds : ∀ c ∈ ds, c.isDigit = true := fun c hc => h c (List.mem_cons_of_mem d hc)
      have hnext : noGroup (ds ++ r) = true := by
        cases ds with
        | nil => exact hr
        | cons e ds =>
            show (!(isGroupSeparator e && groupFollows (ds ++ r))) = true
            rw [digit_not_groupSeparator (hds e List.mem_cons_self)]
            rfl
      rw [List.cons_append, withoutGroups_cons (.inr hnext), ih hds, List.cons_append]

/-- What ends a figure: it goes on neither with a digit nor with a point nor with a group. -/
def ends (r : List Char) : Bool := noGroup r && !r.head?.any Char.isDigit && r.head? != some '.'

theorem ends_cases {r : List Char} (h : ends r = true) :
    noGroup r = true ∧ r.head?.any Char.isDigit = false ∧ r.head? ≠ some '.' := by
  unfold ends at h
  rw [Bool.and_eq_true, Bool.and_eq_true, Bool.not_eq_true', bne_iff_ne] at h
  exact ⟨h.1.1, h.1.2, h.2⟩

theorem ends_letter {c : Char} (hc : c ∈ letters) (r : List Char) : ends (c :: r) = true := by
  have hkept := letter_kept hc
  have hpoint : c ≠ '.' := by
    rintro rfl
    revert hc
    decide
  simp [ends, noGroup, hkept.2.2.1, hkept.2.2.2.1, hpoint]

theorem groupFollows_cons {c : Char} (h : c.isDigit = false) (r : List Char) : groupFollows (c :: r) = false := by
  rcases r with _ | ⟨d, _ | ⟨e, r⟩⟩
  · rfl
  · rfl
  · simp [groupFollows, h]

theorem ends_space {c : Char} (h : c.isDigit = false) (r : List Char) : ends (' ' :: c :: r) = true := by
  simp [ends, noGroup, groupFollows_cons h]

theorem ends_word (n : ℕ) (w : Word) (r : List Char) : ends (spaces n ++ (w.text ++ r)) = true := by
  obtain ⟨c, t, hw, hc⟩ := w.text_cons
  rw [hw]
  rcases n with _ | _ | n
  · exact ends_letter hc (t ++ r)
  · exact ends_space (letter_kept hc).2.2.1 (t ++ r)
  · exact ends_space rfl (spaces n ++ (c :: t ++ r))

/-- The groups after a digit. -/
theorem withoutGroups_groups {s : List Char} (hgroup : noGroup s = true)
    (hdigit : s.head?.any Char.isDigit = false) (gs : List Group) {c : Char} (hc : c.isDigit = true) :
    withoutGroups (c :: (latin (gs.flatMap Group.text) ++ s)) =
      c :: (gs.flatMap Group.plain ++ withoutGroups s) := by
  induction gs generalizing c with
  | nil => exact withoutGroups_cons (.inr hgroup)
  | cons g gs ih =>
      obtain ⟨hone, htwo, hthree⟩ := g.digits
      -- the text after the group goes on with a separator, a point or the end
      have hnext : (latin (gs.flatMap Group.text) ++ s).head?.any Char.isDigit = false := by
        cases gs with
        | nil => exact hdigit
        | cons g' gs =>
            show (latinDigit g'.separator).isDigit = false
            rcases g'.separated with h | h <;> rw [h] <;> decide
      have hseparator : isGroupSeparator (latinDigit g.separator) = true := by
        rcases g.separated with h | h <;> rw [h] <;> decide
      have hfollows : groupFollows (g.plain ++ (latin (gs.flatMap Group.text) ++ s)) = true := by
        show ((latinDigit g.first).isDigit && (latinDigit g.second).isDigit && (latinDigit g.third).isDigit &&
          !(latin (gs.flatMap Group.text) ++ s).head?.any Char.isDigit) = true
        rw [hnext, show (latinDigit g.first).isDigit = true from hone,
          show (latinDigit g.second).isDigit = true from htwo,
          show (latinDigit g.third).isDigit = true from hthree]
        rfl
      have hout : withoutGroups (c :: (latin ((g :: gs).flatMap Group.text) ++ s)) =
          c :: withoutGroups (g.plain ++ (latin (gs.flatMap Group.text) ++ s)) := by
        rw [List.flatMap_cons, latin_append, List.append_assoc]
        show withoutGroups (c :: latinDigit g.separator :: (g.plain ++ (latin (gs.flatMap Group.text) ++ s))) = _
        rw [withoutGroups, hc, hseparator, hfollows]
        rfl
      have hdigits : withoutGroups (g.plain ++ (latin (gs.flatMap Group.text) ++ s)) =
          [latinDigit g.first, latinDigit g.second] ++
            withoutGroups (latinDigit g.third :: (latin (gs.flatMap Group.text) ++ s)) := by
        show withoutGroups ([latinDigit g.first, latinDigit g.second] ++
          latinDigit g.third :: (latin (gs.flatMap Group.text) ++ s)) = _
        apply withoutGroups_digits
        · intro d hd
          simp only [List.mem_cons, List.not_mem_nil, or_false] at hd
          rcases hd with rfl | rfl
          · exact hone
          · exact htwo
        · show (!(isGroupSeparator (latinDigit g.third) && _)) = true
          rw [digit_not_groupSeparator hthree]
          rfl
      rw [hout, hdigits, ih hthree, List.flatMap_cons, List.append_assoc]
      rfl

theorem withoutGroups_figure (f : TypedFigure) {r : List Char} (hr : ends r = true) :
    withoutGroups (latin f.text ++ r) = f.bare ++ withoutGroups r := by
  obtain ⟨hgroup, hdigit, _⟩ := ends_cases hr
  -- what follows the groups: the point and its digits, or the rest
  have hdecimals : ∃ s, latin (f.decimals.elim [] Decimals.text) ++ r = s ∧ noGroup s = true ∧
      s.head?.any Char.isDigit = false ∧
      withoutGroups s = (f.decimals.elim [] fun d => d.point :: latin d.digits) ++ withoutGroups r := by
    cases f.decimals with
    | none => exact ⟨r, rfl, hgroup, hdigit, rfl⟩
    | some d =>
        have hpoint : d.point.isDigit = false ∧ isGroupSeparator d.point = false := by
          rcases d.pointed with h | h <;> rw [h] <;> decide
        refine ⟨d.point :: (latin d.digits ++ r), ?_, ?_, hpoint.1, ?_⟩
        · show latinDigit d.point :: (latin d.digits ++ r) = _
          rw [latin_point d.pointed]
        · show (!(isGroupSeparator d.point && _)) = true
          rw [hpoint.2]
          rfl
        · rw [withoutGroups_cons (.inl hpoint.1), withoutGroups_digits d.isDigit_digits hgroup]
          rfl
  obtain ⟨s, hs, hsgroup, hsdigit, hout⟩ := hdecimals
  obtain ⟨init, c, hlead, hc⟩ : ∃ init c, latin f.lead = init ++ [c] ∧ c.isDigit = true := by
    have hne : latin f.lead ≠ [] := fun h => f.nonempty (List.map_eq_nil_iff.mp h)
    exact ⟨_, _, (List.dropLast_append_getLast hne).symm, isDigit_latin f.all _ (List.getLast_mem hne)⟩
  have hinit : ∀ d ∈ init, d.isDigit = true := fun d hd =>
    isDigit_latin f.all d (by rw [hlead]; exact List.mem_append_left _ hd)
  have hnext : noGroup (c :: (latin (f.groups.flatMap Group.text) ++ s)) = true := by
    show (!(isGroupSeparator c && _)) = true
    rw [digit_not_groupSeparator hc]
    rfl
  unfold TypedFigure.text TypedFigure.bare TypedFigure.whole
  rw [latin_append, latin_append, List.append_assoc, List.append_assoc, hs, hlead, List.append_assoc]
  show withoutGroups (init ++ (c :: (latin (f.groups.flatMap Group.text) ++ s))) = _
  rw [withoutGroups_digits hinit hnext, withoutGroups_groups hsgroup hsdigit f.groups hc, hout]
  simp

/-- The first token is a word, if there is one. -/
def wordFirst : List Token → Bool
  | (_, .figure _) :: _ => false
  | _ => true

/-- No figure follows a figure. -/
def apart : List Token → Bool
  | [] => true
  | (_, .figure _) :: ts => wordFirst ts && apart ts
  | (_, .word _) :: ts => apart ts

theorem tokens_apart (p : PriceForm) : wordFirst p.tokens = true ∧ apart p.tokens = true := by
  obtain ⟨_, _, scale, range, unit, _⟩ := p
  cases range with
  | none => cases scale <;> cases unit <;> exact ⟨rfl, rfl⟩
  | some range =>
      obtain ⟨_, _, _, scale'⟩ := range
      cases scale <;> cases scale' <;> cases unit <;> exact ⟨rfl, rfl⟩

/-- A figure before a word ends there. -/
theorem ends_render {item : Item → List Char} (hitem : ∀ w, item (.word w) = w.text) (width : ℕ → ℕ)
    {ts : List Token} (h : wordFirst ts = true) : ends (render width item ts) = true := by
  rcases ts with _ | ⟨⟨n, w | f⟩, ts⟩
  · rfl
  · have hcons := render_cons width item (n, .word w) ts []
    rw [List.append_nil, List.append_nil, hitem] at hcons
    rw [hcons]
    exact ends_word _ w _
  · cases h

theorem withoutGroups_render (width : ℕ → ℕ) {ts : List Token} (h : apart ts = true) :
    withoutGroups (render width Item.latin ts) = render width Item.bare ts := by
  have hspaces : ∀ n, ∀ c ∈ spaces n, c.isDigit = false := fun n c hc => by
    rw [List.eq_of_mem_replicate hc]
    rfl
  induction ts with
  | nil => rfl
  | cons t ts ih =>
      have hcons := fun item => render_cons width item t ts []
      simp only [List.append_nil] at hcons
      rw [hcons, hcons, withoutGroups_append (hspaces _)]
      congr 1
      obtain ⟨n, w | f⟩ := t
      · show withoutGroups (latin w.text ++ _) = w.text ++ _
        rw [latin_word, withoutGroups_append fun c hc => (letter_kept (w.mem_letters c hc)).2.2.1, ih h]
      · obtain ⟨hword, hapart⟩ := Bool.and_eq_true_iff.mp h
        show withoutGroups (latin f.text ++ _) = f.bare ++ _
        rw [withoutGroups_figure f (ends_render latin_word width hword), ih hapart]

/-- **What the reader of the filters sees**: the same, with one space for each run. -/
theorem normalized_text {n : Normalizer} (hn : KeepsPrices n) (p : PriceForm) :
    pointed (withoutGroups (normalizePersianText n p.text)) =
      p.figure.plain ++ render (min 1) Item.plain p.tokens := by
  obtain ⟨hword, hapart⟩ := tokens_apart p
  rw [normalized_spaces hn, withoutGroups_figure _ (ends_render latin_word _ hword),
    withoutGroups_render _ hapart, pointed_append, pointed_figure, pointed_render]

/-! ### The figure -/

/-- The first figure is the figure, and the tail is what the tokens are. -/
theorem firstFigure_tokens (width : ℕ → ℕ) (p : PriceForm) :
    firstFigure (p.figure.plain ++ render width Item.plain p.tokens) =
      some (p.figure.figure, render width Item.plain p.tokens) := by
  have hends : ends (render width Item.plain p.tokens) = true :=
    ends_render (fun _ => rfl) width (tokens_apart p).1
  obtain ⟨_, hdigit, hpoint⟩ := ends_cases hends
  generalize render width Item.plain p.tokens = r at hdigit hpoint
  have hhead : ∀ c ∈ r.head?, c.isDigit = false := by
    intro c hc
    rw [Option.mem_def.mp hc] at hdigit
    exact hdigit
  unfold TypedFigure.plain TypedFigure.figure TypedFigure.fraction
  cases p.figure.decimals with
  | none =>
      have hwhole : fractionOf r = ([], r) := fractionOf_other fun c u heq => hpoint (by rw [heq]; rfl)
      show firstFigure (p.figure.whole ++ [] ++ r) = _
      rw [List.append_nil]
      exact firstFigure_whole p.figure.whole_ne_nil p.figure.isDigit_whole hhead hwhole
  | some d =>
      have hne : latin d.digits ≠ [] := fun h => d.nonempty (List.map_eq_nil_iff.mp h)
      show firstFigure (p.figure.whole ++ '.' :: latin d.digits ++ r) = _
      rw [List.append_assoc]
      exact firstFigure_decimal p.figure.whole_ne_nil p.figure.isDigit_whole hne d.isDigit_digits hhead

end TransportBackend.PriceGroups
