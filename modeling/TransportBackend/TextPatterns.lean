import Mathlib.Data.List.Chain
import Mathlib.Data.List.TakeWhile
import Mathlib.Data.Nat.Notation

/-!
# Searching a text for patterns

What a program does with the small patterns it reads a text by, on the characters of the text: where a
pattern matches first, whether it matches at all, the first figure, and the text with some characters
left out.

* `Pattern`, `word`, `wordI`, `oneOf`, `endsWord`: the patterns;
* `searchAt`, `occurs`: where a pattern matches, and whether;
* `searchAt_some`, `searchAt_none`, `searchAt_first`: what the place of a match says;
* `Misses`, `searchAt_append`: **what a pattern cannot begin in, it is searched behind**;
* `Avoids`, `not_occurs_of_avoids`: a word with two letters side by side that never are so in the text
  is not in it;
* `firstFigure`, `firstFigure_append`: the first figure and what follows it;
* `omitWhere`: a text without the characters that a condition on what follows them takes out.
-/

namespace TransportBackend.TextPatterns

/-! ### Patterns -/

/-- Whether a pattern matches at the start of what is left of the text. -/
abbrev Pattern : Type := List Char → Bool

def word (w : List Char) : Pattern := fun t => w.isPrefixOf t

/-- A word in small letters, written in any of the ASCII cases. -/
def wordI (w : List Char) : Pattern := fun t => w.isPrefixOf (t.map Char.toLower)

def oneOf (ps : List Pattern) : Pattern := fun t => ps.any fun p => p t

/-- `\w`. -/
def isWordChar (c : Char) : Bool := c.isAlphanum || c == '_'

/-- A letter and then `\b`. -/
def endsWord (letter : Char → Bool) : Pattern
  | c :: t => letter c && (isWordChar c != t.head?.any isWordChar)
  | [] => false

/-- Where a pattern matches first. -/
def searchAt (p : Pattern) : List Char → Option ℕ
  | [] => if p [] then some 0 else none
  | c :: t => if p (c :: t) then some 0 else (searchAt p t).map (· + 1)

def occurs (p : Pattern) (t : List Char) : Bool := (searchAt p t).isSome

theorem searchAt_of_match {p : Pattern} {t : List Char} (h : p t = true) : searchAt p t = some 0 := by
  cases t with
  | nil => exact if_pos h
  | cons c t => exact if_pos h

theorem searchAt_cons {p : Pattern} {c : Char} {t : List Char} (h : p (c :: t) = false) :
    searchAt p (c :: t) = (searchAt p t).map (· + 1) := by
  rw [searchAt, h]
  rfl

/-- The place of the first match: the pattern matches there and nowhere before. -/
theorem searchAt_some {p : Pattern} {t : List Char} {i : ℕ} (h : searchAt p t = some i) :
    i ≤ t.length ∧ p (t.drop i) = true ∧ ∀ j < i, p (t.drop j) = false := by
  induction t generalizing i with
  | nil =>
      unfold searchAt at h
      split at h
      · rename_i hmatch
        obtain rfl := Option.some.inj h
        exact ⟨le_rfl, hmatch, fun j hj => absurd hj (Nat.not_lt_zero j)⟩
      · cases h
  | cons c t ih =>
      cases hmatch : p (c :: t) with
      | true =>
          rw [searchAt_of_match hmatch] at h
          obtain rfl := Option.some.inj h
          exact ⟨Nat.zero_le _, hmatch, fun j hj => absurd hj (Nat.not_lt_zero j)⟩
      | false =>
          rw [searchAt_cons hmatch] at h
          obtain ⟨k, hk, rfl⟩ := Option.map_eq_some_iff.mp h
          obtain ⟨hle, hthere, hbefore⟩ := ih hk
          refine ⟨Nat.succ_le_succ hle, hthere, fun j hj => ?_⟩
          cases j with
          | zero => exact hmatch
          | succ j => exact hbefore j (Nat.lt_of_succ_lt_succ hj)

theorem searchAt_none {p : Pattern} {t : List Char} (h : searchAt p t = none) {j : ℕ} (hj : j ≤ t.length) :
    p (t.drop j) = false := by
  induction t generalizing j with
  | nil =>
      unfold searchAt at h
      split at h
      · cases h
      · rename_i hmatch
        rw [Nat.le_zero.mp hj]
        exact Bool.eq_false_iff.mpr hmatch
  | cons c t ih =>
      cases hmatch : p (c :: t) with
      | true =>
          rw [searchAt_of_match hmatch] at h
          cases h
      | false =>
          rw [searchAt_cons hmatch] at h
          cases j with
          | zero => exact hmatch
          | succ j => exact ih (Option.map_eq_none_iff.mp h) (Nat.le_of_succ_le_succ hj)

/-- Where a pattern matches and nowhere before, there it is found. -/
theorem searchAt_first {p : Pattern} {t : List Char} {i : ℕ} (hi : i ≤ t.length) (hmatch : p (t.drop i) = true)
    (hbefore : ∀ j < i, p (t.drop j) = false) : searchAt p t = some i := by
  cases hsearch : searchAt p t with
  | none =>
      rw [searchAt_none hsearch hi] at hmatch
      cases hmatch
  | some k =>
      obtain ⟨_, hthere, hless⟩ := searchAt_some hsearch
      rcases Nat.lt_trichotomy i k with hlt | rfl | hgt
      · rw [hless i hlt] at hmatch
        cases hmatch
      · rfl
      · rw [hbefore k hgt] at hthere
        cases hthere

/-! ### Where a pattern cannot begin -/

/-- The pattern matches nowhere in the first part, whatever it would take of the second. -/
def misses (p : Pattern) : List Char → List Char → Bool
  | [], _ => true
  | c :: l, r => !p (c :: (l ++ r)) && misses p l r

abbrev Misses (p : Pattern) (l r : List Char) : Prop := misses p l r = true

theorem misses_cons {p : Pattern} {c : Char} {l r : List Char} :
    Misses p (c :: l) r ↔ p (c :: (l ++ r)) = false ∧ Misses p l r := by
  simp [Misses, misses]

/-- A pattern that begins somewhere in the first part is found there. -/
theorem searchAt_inside {p : Pattern} {l r : List Char} (h : ¬Misses p l r) :
    ∃ i < l.length, searchAt p (l ++ r) = some i := by
  induction l with
  | nil => exact absurd rfl h
  | cons c l ih =>
      cases hmatch : p (c :: (l ++ r)) with
      | true => exact ⟨0, Nat.succ_pos _, searchAt_of_match hmatch⟩
      | false =>
          obtain ⟨i, hi, hsearch⟩ := ih fun hl => h (misses_cons.mpr ⟨hmatch, hl⟩)
          refine ⟨i + 1, Nat.succ_lt_succ hi, ?_⟩
          rw [List.cons_append, searchAt_cons hmatch, hsearch]
          rfl

theorem misses_of_heads {p : Pattern} {l : List Char} (h : ∀ c ∈ l, ∀ t, p (c :: t) = false)
    (r : List Char) : Misses p l r := by
  induction l with
  | nil => rfl
  | cons c l ih =>
      exact misses_cons.mpr ⟨h c List.mem_cons_self _, ih fun a ha => h a (List.mem_cons_of_mem c ha)⟩

theorem Misses.append {p : Pattern} {l m r : List Char} (hl : Misses p l (m ++ r)) (hm : Misses p m r) :
    Misses p (l ++ m) r := by
  induction l with
  | nil => exact hm
  | cons c l ih =>
      obtain ⟨hc, hl⟩ := misses_cons.mp hl
      refine misses_cons.mpr ⟨?_, ih hl⟩
      show p (c :: (l ++ m ++ r)) = false
      rw [List.append_assoc]
      exact hc

/-- **What a pattern cannot begin in, it is searched behind.** -/
theorem searchAt_append {p : Pattern} {l r : List Char} (h : Misses p l r) :
    searchAt p (l ++ r) = (searchAt p r).map (· + l.length) := by
  induction l with
  | nil =>
      show searchAt p r = (searchAt p r).map (· + 0)
      cases searchAt p r <;> rfl
  | cons c l ih =>
      obtain ⟨hc, hl⟩ := misses_cons.mp h
      rw [List.cons_append, searchAt_cons hc, ih hl, Option.map_map]
      congr 1

theorem occurs_append {p : Pattern} {l r : List Char} (h : Misses p l r) :
    occurs p (l ++ r) = occurs p r := by
  unfold occurs
  rw [searchAt_append h, Option.isSome_map]

theorem occurs_of_match {p : Pattern} {t : List Char} (h : p t = true) : occurs p t = true := by
  unfold occurs
  rw [searchAt_of_match h]
  rfl

/-- A pattern that matches somewhere matches at some rest of the text. -/
theorem occurs_iff {p : Pattern} {t : List Char} : occurs p t = true ↔ ∃ s, s <:+ t ∧ p s = true := by
  induction t with
  | nil =>
      constructor
      · intro h
        by_cases hp : p [] = true
        · exact ⟨[], List.suffix_refl _, hp⟩
        · unfold occurs searchAt at h
          rw [if_neg hp] at h
          cases h
      · rintro ⟨s, hs, hp⟩
        rw [List.eq_nil_of_suffix_nil hs] at hp
        exact occurs_of_match hp
  | cons c t ih =>
      by_cases hp : p (c :: t) = true
      · exact ⟨fun _ => ⟨c :: t, List.suffix_refl _, hp⟩, fun _ => occurs_of_match hp⟩
      · have hnext : occurs p (c :: t) = occurs p t := by
          unfold occurs
          rw [searchAt_cons (Bool.eq_false_iff.mpr hp), Option.isSome_map]
        rw [hnext, ih]
        constructor
        · rintro ⟨s, hs, hmatch⟩
          exact ⟨s, hs.trans (List.suffix_cons c t), hmatch⟩
        · rintro ⟨s, hs, hmatch⟩
          rcases List.suffix_cons_iff.mp hs with rfl | hs
          · exact absurd hmatch hp
          · exact ⟨s, hs, hmatch⟩

/-! ### Figures -/

/-- The digits of a figure before and after its point; without a point there are none after. -/
structure Figure where
  whole : List Char
  fraction : List Char
  deriving DecidableEq

/-- The point of a figure and its digits: a point counts only before a digit. -/
def fractionOf : List Char → List Char × List Char
  | '.' :: c :: t =>
      if c.isDigit then ((c :: t).takeWhile Char.isDigit, (c :: t).dropWhile Char.isDigit)
      else ([], '.' :: c :: t)
  | t => ([], t)

/-- `\d+(?:\.\d+)?`: the first figure and what follows it. -/
def firstFigure (t : List Char) : Option (Figure × List Char) :=
  match t.dropWhile fun c => !c.isDigit with
  | [] => none
  | c :: t =>
      let rest := fractionOf ((c :: t).dropWhile Char.isDigit)
      some (⟨(c :: t).takeWhile Char.isDigit, rest.1⟩, rest.2)

theorem takeWhile_digits {ds : List Char} (h : ∀ c ∈ ds, c.isDigit = true) {r : List Char}
    (hr : ∀ c ∈ r.head?, c.isDigit = false) :
    (ds ++ r).takeWhile Char.isDigit = ds ∧ (ds ++ r).dropWhile Char.isDigit = r := by
  induction ds with
  | nil =>
      cases r with
      | nil => exact ⟨rfl, rfl⟩
      | cons c r =>
          have hc : c.isDigit = false := hr c rfl
          simp [hc]
  | cons d ds ih =>
      have hd : d.isDigit = true := h d List.mem_cons_self
      obtain ⟨htake, hdrop⟩ := ih fun c hc => h c (List.mem_cons_of_mem d hc)
      constructor
      · rw [List.cons_append, List.takeWhile_cons_of_pos hd, htake]
      · rw [List.cons_append, List.dropWhile_cons_of_pos hd, hdrop]

theorem dropWhile_digit {c : Char} {t : List Char} (hc : c.isDigit = true) :
    (c :: t).dropWhile (fun c => !c.isDigit) = c :: t := by
  simp [hc]

/-- A text that begins with a whole number. -/
theorem firstFigure_whole {ds r : List Char} (hne : ds ≠ []) (h : ∀ c ∈ ds, c.isDigit = true)
    (hr : ∀ c ∈ r.head?, c.isDigit = false) (hpoint : fractionOf r = ([], r)) :
    firstFigure (ds ++ r) = some (⟨ds, []⟩, r) := by
  obtain ⟨c, t, rfl⟩ := List.exists_cons_of_ne_nil hne
  have hc : c.isDigit = true := h c List.mem_cons_self
  obtain ⟨htake, hdrop⟩ := takeWhile_digits h hr
  unfold firstFigure
  rw [List.cons_append, dropWhile_digit hc]
  dsimp only
  rw [← List.cons_append, htake, hdrop, hpoint]

/-- A text that begins with a figure with decimals. -/
theorem firstFigure_decimal {ds fs r : List Char} (hne : ds ≠ []) (h : ∀ c ∈ ds, c.isDigit = true)
    (hfne : fs ≠ []) (hf : ∀ c ∈ fs, c.isDigit = true) (hr : ∀ c ∈ r.head?, c.isDigit = false) :
    firstFigure (ds ++ '.' :: (fs ++ r)) = some (⟨ds, fs⟩, r) := by
  obtain ⟨c, t, rfl⟩ := List.exists_cons_of_ne_nil hne
  obtain ⟨f, u, rfl⟩ := List.exists_cons_of_ne_nil hfne
  have hc : c.isDigit = true := h c List.mem_cons_self
  have hfirst : f.isDigit = true := hf f List.mem_cons_self
  obtain ⟨htake, hdrop⟩ := takeWhile_digits h (r := '.' :: (f :: u ++ r)) fun _ hx => by
    cases hx
    rfl
  obtain ⟨hftake, hfdrop⟩ := takeWhile_digits hf hr
  unfold firstFigure
  rw [List.cons_append, dropWhile_digit hc]
  dsimp only
  rw [← List.cons_append, htake, hdrop]
  have hfraction : fractionOf ('.' :: (f :: u ++ r)) = (f :: u, r) := by
    show (if f.isDigit then _ else _) = _
    rw [if_pos hfirst]
    exact Prod.ext hftake hfdrop
  rw [hfraction]

/-- A text without a digit has no figure. -/
theorem firstFigure_none {t : List Char} (h : ∀ c ∈ t, c.isDigit = false) : firstFigure t = none := by
  have hdrop : t.dropWhile (fun c => !c.isDigit) = [] :=
    List.dropWhile_eq_nil_iff.mpr fun c hc => by
      rw [h c hc]
      rfl
  unfold firstFigure
  rw [hdrop]

/-- Before its first figure a text may hold anything but digits. -/
theorem firstFigure_append {l : List Char} (h : ∀ c ∈ l, c.isDigit = false) (t : List Char) :
    firstFigure (l ++ t) = firstFigure t := by
  have hdrop : (l ++ t).dropWhile (fun c => !c.isDigit) = t.dropWhile fun c => !c.isDigit := by
    induction l with
    | nil => rfl
    | cons c l ih =>
        have hc : c.isDigit = false := h c List.mem_cons_self
        rw [List.cons_append, List.dropWhile_cons_of_pos (by rw [hc]; rfl)]
        exact ih fun a ha => h a (List.mem_cons_of_mem c ha)
  unfold firstFigure
  rw [hdrop]

/-! ### Leaving characters out -/

/-- The text without the characters that such a condition on them and what follows takes out. -/
def omitWhere (out : Char → List Char → Bool) : List Char → List Char
  | [] => []
  | c :: t => if out c t then omitWhere out t else c :: omitWhere out t

theorem omitWhere_append {out : Char → List Char → Bool} {l r : List Char}
    (h : ∀ c ∈ l, ∀ t, out c t = false) : omitWhere out (l ++ r) = l ++ omitWhere out r := by
  induction l with
  | nil => rfl
  | cons c l ih =>
      rw [List.cons_append, omitWhere, h c List.mem_cons_self]
      show c :: omitWhere out (l ++ r) = _
      rw [ih fun a ha => h a (List.mem_cons_of_mem c ha), List.cons_append]

theorem omitWhere_self {out : Char → List Char → Bool} {l : List Char}
    (h : ∀ c ∈ l, ∀ t, out c t = false) : omitWhere out l = l := by
  have happend := omitWhere_append (r := []) h
  rwa [List.append_nil, omitWhere, List.append_nil] at happend

end TransportBackend.TextPatterns
