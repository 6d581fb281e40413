import TransportBackend.SpokenPlaces
import TransportBackend.TextPatterns

/-!
# The text with the code in it

`applyResolvedCode` of `spokenCodes.ts`: the number that was chosen is searched in the tidied text from its
start and replaced by the code, and a spoken «TRB» that ends right before it goes with it.  The search knows
neither tokens nor the place of the number that was chosen.

* `isSpokenPrefix`, `withoutPrefix`, `applyResolvedCode`: the code as it is written;
* `withoutSpokenPrefix`, `replaced`: the tokens there should be;
* `Sound`: the span is nowhere before the number, and the prefix begins a word;
* `applied_own`: **at its own place the tokens are those**, up to where the prefix begins;
* `resolved_iff`: **the number that was chosen is the one that is replaced exactly if its place is sound**.
-/

namespace TransportBackend.ResolvedCodes

open TransportBackend.PersianNumberWords
open TransportBackend.PriceTexts
open TransportBackend.SpokenMatches
open TransportBackend.SpokenNumbers
open TransportBackend.SpokenPlaces
open TransportBackend.SpokenTokens
open TransportBackend.TextPatterns
open TransportBackend.TripFareRules

/-! ### The spoken prefix -/

/-- A letter, in any of its cases, or characters that are passed over. -/
inductive Part
  | letter (c : Char)
  | gap (skip : Char → Bool)

/-- What follows the parts at the start of a text. -/
def matchParts : List Part → List Char → Option (List Char)
  | [], t => some t
  | .letter _ :: _, [] => none
  | .letter c :: parts, d :: t => if d.toUpper = c then matchParts parts t else none
  | .gap skip :: parts, t => matchParts parts (t.dropWhile skip)

/-- `[\s\u200c]`. -/
def isGap (c : Char) : Bool := isJsSpace c || c == '\u200c'

/-- `[\s،,\u200c]`. -/
def isWideGap (c : Char) : Bool := isGap c || c == '،' || c == ','

/-- `[\s،,-]`. -/
def isTail (c : Char) : Bool := isJsSpace c || c == '،' || c == ',' || c == '-'

/-- The ways «TRB» is written. -/
def spokenPrefixes : List (List Part) :=
  [[.letter 'T', .letter 'R', .letter 'B'],
    [.letter 'T', .gap isJsSpace, .letter 'R', .gap isJsSpace, .letter 'B'],
    [.letter 'ت', .letter 'ی', .gap isWideGap, .letter 'آ', .letter 'ر', .gap isWideGap, .letter 'ب', .letter 'ی'],
    [.letter 'ک', .letter 'ی', .gap isGap, .letter 'ع', .letter 'ر', .letter 'ب', .letter 'ی'],
    [.letter 'ت', .letter 'ی', .gap isGap, .letter 'ع', .letter 'ر', .letter 'ب', .letter 'ی'],
    [.letter 'ت', .letter 'ی', .gap isGap, .letter 'آ', .letter 'ر', .letter 'ب', .letter 'ی']]

/-- `SPOKEN_PREFIX`: one of them, and nothing behind it but spaces and marks. -/
def isSpokenPrefix : Pattern := fun t =>
  spokenPrefixes.any fun parts => (matchParts parts t).any fun rest => rest.all isTail

/-! ### The rewritten text -/

/-- The tidied text in which the number is searched. -/
def latinText (text : List Char) : List Char := collapseSpaces false (searched text)

/-- `replace(SPOKEN_PREFIX, '')`. -/
def withoutPrefix (before : List Char) : List Char :=
  match searchAt isSpokenPrefix before with
  | some i => before.take i
  | none => before

def applyResolvedCode (text span code : List Char) : Option (List Char) :=
  (searchAt (word span) (latinText text)).map fun index =>
    let before := withoutPrefix ((latinText text).take index)
    let after := (latinText text).drop (index + span.length)
    trim (collapseSpaces false (before ++ ' ' :: (code ++ ' ' :: after)))

/-! ### The tokens there should be -/

/-- Tokens without the spoken prefix that ends them. -/
def withoutSpokenPrefix : List (List Char) → List (List Char)
  | [] => []
  | token :: rest =>
      if isSpokenPrefix (frontText (token :: rest)) then [] else token :: withoutSpokenPrefix rest

/-- The tokens of the text with the code for the number at a place. -/
def replaced (place : Place) (code : List Char) : List (List Char) :=
  withoutSpokenPrefix place.before ++ (wordsIn code ++ place.after)

/-- A text is answered, and its tokens are those. -/
def Replaces (text span : List Char) (place : Place) (code : List Char) : Prop :=
  ∃ answer, applyResolvedCode text span code = some answer ∧ wordsIn answer = replaced place code

/-- The tidied text before a place. -/
def textBefore (text : List Char) (place : Place) : List Char :=
  (if (searched text).head?.any isJsSpace then [' '] else []) ++ frontText place.before

/-- Nothing, or a text that ends with a space. -/
def AtWord (t : List Char) : Prop := t = [] ∨ t.getLast? = some ' '

/-- The span is nowhere before the number, and wherever the prefix ends before it inside of a word, it does so
from the start of a word before. -/
structure Sound (text : List Char) (place : Place) : Prop where
  first : ∀ j < (textBefore text place).length, word place.span ((latinText text).drop j) = false
  apart : ∀ i, isSpokenPrefix ((textBefore text place).drop i) = true →
    ∃ j ≤ i, isSpokenPrefix ((textBefore text place).drop j) = true ∧ AtWord ((textBefore text place).take j)

/-! ### The text around a place -/

section Places

variable {text : List Char} {place : Place}

theorem latinText_words (text : List Char) : ∃ trail, Edge trail ∧ latinText text =
    (if (searched text).head?.any isJsSpace then [' '] else []) ++ (spaced (tokens text) ++ trail) := by
  obtain ⟨lead, trail, _, htrail, hwords, _, _, hnone, hspace⟩ := collapse_flagged (searched text)
  refine ⟨trail, htrail, hwords.trans ?_⟩
  congr 1
  rcases head_cases (searched text) with hnil | ⟨c, u, hcons, hc⟩ | ⟨c, u, hcons, hc⟩
  · rw [hnil]
    exact hnone fun c u h => by rw [hnil] at h; cases h
  · rw [hcons]
    exact (hspace ⟨c, u, hcons, hc⟩).trans (if_pos (by simpa using hc)).symm
  · refine (hnone fun d v h => ?_).trans (if_neg ?_).symm
    · rw [hcons] at h
      rw [← (List.cons.inj h).1]
      exact hc
    · rw [hcons]
      simp [hc]

/-- Before the number stands the text before its place, and behind it a text with the tokens after. -/
theorem latinText_place (h : place ∈ placesIn text) : ∃ textAfter,
    latinText text = textBefore text place ++ (place.span ++ textAfter) ∧ wordsIn textAfter = place.after := by
  obtain ⟨trail, htrail, htext⟩ := latinText_words text
  obtain ⟨htokens, hrun⟩ := placesIn_split h
  have hwords : ∀ w ∈ place.after, IsWord w := fun w hw =>
    isWord_wordsIn (searched text) w (by
      show w ∈ tokens text
      rw [← htokens]
      simp [hw])
  have hspaced : spaced (tokens text) = frontText place.before ++ spaced (place.run ++ place.after) := by
    rw [← htokens, spaced_front _ (by simp [hrun])]
  by_cases hafter : place.after = []
  · refine ⟨trail, ?_, ?_⟩
    · rw [htext, hspaced, hafter, List.append_nil, textBefore, List.append_assoc, List.append_assoc]
      rfl
    · have hblank := (wordsIn_blank (blank_edge htrail) []).1
      rw [List.append_nil, wordsIn_nil] at hblank
      rw [hblank, hafter]
  · refine ⟨' ' :: (spaced place.after ++ trail), ?_, ?_⟩
    · rw [htext, hspaced, spaced_append hrun hafter, textBefore]
      simp [Place.span]
    · rw [wordsIn_space (by decide), (wordsIn_blank (blank_edge htrail) _).2, wordsIn_spaced hwords]

/-- The span ends with a letter. -/
theorem span_last (h : place ∈ placesIn text) : ∃ init c, place.span = init ++ [c] ∧ isJsSpace c = false := by
  obtain ⟨htokens, hrun⟩ := placesIn_split h
  obtain ⟨front, w, hsplit⟩ : ∃ front w, place.run = front ++ [w] :=
    ⟨_, _, (List.dropLast_append_getLast hrun).symm⟩
  have hw : IsWord w := isWord_wordsIn (searched text) w (by
    show w ∈ tokens text
    rw [← htokens, hsplit]
    simp)
  obtain ⟨hne, hchars⟩ := hw
  obtain ⟨body, c, rfl⟩ : ∃ body c, w = body ++ [c] := ⟨_, _, (List.dropLast_append_getLast hne).symm⟩
  refine ⟨frontText front ++ body, c, ?_, hchars c (by simp)⟩
  have hone : spaced [body ++ [c]] = body ++ [c] := List.intercalate_singleton
  rw [Place.span, hsplit, spaced_front front (List.cons_ne_nil _ _), hone, List.append_assoc]

end Places

/-! ### Where the prefix is cut off -/

/-- No prefix begins with a space. -/
theorem isSpokenPrefix_space (t : List Char) : isSpokenPrefix (' ' :: t) = false := by
  unfold isSpokenPrefix
  rw [List.any_eq_false]
  intro parts hparts
  have hnone : matchParts parts (' ' :: t) = none := by
    unfold spokenPrefixes at hparts
    simp only [List.mem_cons, List.not_mem_nil, or_false] at hparts
    rcases hparts with rfl | rfl | rfl | rfl | rfl | rfl <;> exact if_neg (by decide)
  rw [hnone]
  exact Bool.false_ne_true

theorem withoutPrefix_match {t : List Char} (h : isSpokenPrefix t = true) : withoutPrefix t = [] := by
  unfold withoutPrefix
  rw [searchAt_of_match h]
  rfl

/-- What the prefix cannot begin in is kept. -/
theorem withoutPrefix_append {l r : List Char} (h : Misses isSpokenPrefix l r) :
    withoutPrefix (l ++ r) = l ++ withoutPrefix r := by
  unfold withoutPrefix
  rw [searchAt_append h]
  cases searchAt isSpokenPrefix r with
  | none => rfl
  | some i =>
      show (l ++ r).take (i + l.length) = l ++ r.take i
      rw [Nat.add_comm, List.take_length_add_append]

theorem withoutPrefix_space (t : List Char) : withoutPrefix (' ' :: t) = ' ' :: withoutPrefix t :=
  withoutPrefix_append (l := [' ']) (misses_cons.mpr ⟨isSpokenPrefix_space t, rfl⟩)

/-- The lead of a text is no part of a prefix. -/
theorem withoutPrefix_edge {lead : List Char} (h : Edge lead) (t : List Char) :
    withoutPrefix (lead ++ t) = lead ++ withoutPrefix t := by
  rcases h with rfl | rfl
  · rfl
  · exact withoutPrefix_space t

/-- The cut leaves whole tokens, the prefix being the tokens that are missing; or it goes through a token. -/
inductive Cut (ts : List (List Char)) : Prop
  | whole (h : withoutPrefix (frontText ts) = frontText (withoutSpokenPrefix ts))
  | inside (front : List (List Char)) (kept lost : List Char) (more : List (List Char)) (hkept : kept ≠ [])
      (hlost : lost ≠ []) (hwords : ∀ w ∈ front ++ [kept], IsWord w)
      (htext : withoutPrefix (frontText ts) = frontText front ++ kept)
      (hexpected : withoutSpokenPrefix ts = front ++ (kept ++ lost) :: more)

theorem frontText_cons (token : List Char) (ts : List (List Char)) :
    frontText (token :: ts) = token ++ ' ' :: frontText ts := by
  show token ++ [' '] ++ frontText ts = _
  simp

/-- Where the prefix begins in a token other than at its start, it is cut through. -/
theorem cut_inside {token : List Char} {ts : List (List Char)} (hword : IsWord token)
    (hfirst : isSpokenPrefix (frontText (token :: ts)) = false)
    (hmisses : ¬Misses isSpokenPrefix token (' ' :: frontText ts)) : Cut (token :: ts) := by
  obtain ⟨i, hi, hsearch⟩ := searchAt_inside hmisses
  obtain ⟨_, hthere, _⟩ := searchAt_some hsearch
  have hpos : i ≠ 0 := by
    rintro rfl
    rw [List.drop_zero, ← frontText_cons, hfirst] at hthere
    cases hthere
  have hkept : token.take i ≠ [] := by
    intro hnil
    have hlength := congrArg List.length hnil
    rw [List.length_take, List.length_nil] at hlength
    omega
  refine .inside [] (token.take i) (token.drop i) (withoutSpokenPrefix ts) hkept (fun hnil => ?_) (fun w hw => ?_) ?_ ?_
  · have hlength := congrArg List.length hnil
    rw [List.length_drop, List.length_nil] at hlength
    omega
  · rw [List.nil_append, List.mem_singleton] at hw
    rw [hw]
    exact ⟨hkept, fun c hc => hword.2 c (List.mem_of_mem_take hc)⟩
  · unfold withoutPrefix
    rw [frontText_cons, hsearch]
    exact List.take_append_of_le_length (Nat.le_of_lt hi)
  · rw [withoutSpokenPrefix, hfirst, List.take_append_drop]
    rfl

/-- **The cut goes between tokens or through one.** -/
theorem cut_cases {ts : List (List Char)} (hwords : ∀ w ∈ ts, IsWord w) : Cut ts := by
  induction ts with
  | nil => exact .whole rfl
  | cons token ts ih =>
      have hword := hwords token List.mem_cons_self
      cases hfirst : isSpokenPrefix (frontText (token :: ts)) with
      | true =>
          refine .whole ?_
          rw [withoutPrefix_match hfirst, withoutSpokenPrefix, if_pos hfirst]
          rfl
      | false =>
          by_cases hmisses : Misses isSpokenPrefix token (' ' :: frontText ts)
          · have hexpected : withoutSpokenPrefix (token :: ts) = token :: withoutSpokenPrefix ts :=
              if_neg (by rw [hfirst]; exact Bool.false_ne_true)
            have htext : withoutPrefix (frontText (token :: ts)) = token ++ ' ' :: withoutPrefix (frontText ts) := by
              rw [frontText_cons, withoutPrefix_append hmisses, withoutPrefix_space]
            cases ih fun w hw => hwords w (List.mem_cons_of_mem token hw) with
            | whole h =>
                refine .whole ?_
                rw [htext, h, hexpected, frontText_cons]
            | inside front kept lost more hkept hlost hleft hcut hmore =>
                refine .inside (token :: front) kept lost more hkept hlost (fun w hw => ?_) ?_ ?_
                · rcases List.mem_cons.mp hw with rfl | hw
                  · exact hword
                  · exact hleft w hw
                · rw [htext, hcut, frontText_cons]
                  simp
                · rw [hexpected, hmore]
                  rfl
          · exact cut_inside hword hfirst hmisses

theorem withoutSpokenPrefix_subset {ts : List (List Char)} {w : List Char} (h : w ∈ withoutSpokenPrefix ts) :
    w ∈ ts := by
  induction ts with
  | nil => exact h
  | cons token ts ih =>
      rw [withoutSpokenPrefix] at h
      split at h
      · cases h
      · rcases List.mem_cons.mp h with rfl | h
        · exact List.mem_cons_self
        · exact List.mem_cons_of_mem token (ih h)

/-! ### Cuts between tokens -/

theorem atWord_frontText (ts : List (List Char)) : AtWord (frontText ts) := by
  rcases List.eq_nil_or_concat ts with rfl | ⟨front, w, rfl⟩
  · exact .inl rfl
  · right
    unfold frontText
    rw [List.concat_eq_append, List.flatMap_append, List.flatMap_singleton, ← List.append_assoc]
    exact List.getLast?_concat

theorem atWord_edge {lead t : List Char} (hlead : Edge lead) (h : AtWord t) : AtWord (lead ++ t) := by
  rcases h with rfl | h
  · rw [List.append_nil]
    rcases hlead with rfl | rfl
    · exact .inl rfl
    · exact .inr rfl
  · exact .inr (List.mem_getLast?_append_of_mem_getLast? h)

/-- A text that ends with a letter does not end between words. -/
theorem not_atWord {t kept : List Char} (hkept : IsWord kept) : ¬AtWord (t ++ kept) := by
  obtain ⟨hne, hchars⟩ := hkept
  obtain ⟨body, c, rfl⟩ : ∃ body c, kept = body ++ [c] := ⟨_, _, (List.dropLast_append_getLast hne).symm⟩
  have hc := hchars c (by simp)
  rw [← List.append_assoc]
  rintro (h | h)
  · simp at h
  · rw [List.getLast?_concat] at h
    rw [Option.some.inj h] at hc
    cases hc

/-- The prefix begins a word wherever it ends, exactly if what is left before it ends between words. -/
theorem apart_iff {t : List Char} (ht : AtWord t) :
    (∀ i, isSpokenPrefix (t.drop i) = true → ∃ j ≤ i, isSpokenPrefix (t.drop j) = true ∧ AtWord (t.take j)) ↔
      AtWord (withoutPrefix t) := by
  unfold withoutPrefix
  constructor
  · intro h
    cases hsearch : searchAt isSpokenPrefix t with
    | none => exact ht
    | some i =>
        obtain ⟨_, hthere, hbefore⟩ := searchAt_some hsearch
        obtain ⟨j, hj, hmatch, hword⟩ := h i hthere
        rcases Nat.lt_or_eq_of_le hj with hlt | rfl
        · rw [hbefore j hlt] at hmatch
          cases hmatch
        · exact hword
  · intro h i hmatch
    have hi : i ≤ t.length := by
      by_contra hlt
      rw [List.drop_eq_nil_of_le (by omega)] at hmatch
      revert hmatch
      decide
    cases hsearch : searchAt isSpokenPrefix t with
    | none =>
        rw [searchAt_none hsearch hi] at hmatch
        cases hmatch
    | some k =>
        rw [hsearch] at h
        obtain ⟨_, hthere, hbefore⟩ := searchAt_some hsearch
        refine ⟨k, ?_, hthere, h⟩
        by_contra hlt
        rw [hbefore i (by omega)] at hmatch
        cases hmatch

/-! ### The number in its own place -/

section Place

variable {text : List Char} {place : Place}

/-- The lead of the tidied text. -/
theorem lead_edge (text : List Char) : Edge (if (searched text).head?.any isJsSpace then [' '] else []) := by
  split
  · exact .inr rfl
  · exact .inl rfl

theorem isWord_before (h : place ∈ placesIn text) : ∀ w ∈ place.before, IsWord w := by
  intro w hw
  refine isWord_wordsIn (searched text) w ?_
  show w ∈ tokens text
  rw [← (placesIn_split h).1]
  exact List.mem_append_left _ hw

/-- The prefix begins a word exactly if the cut leaves the tokens it should. -/
theorem before_iff (h : place ∈ placesIn text) : AtWord (withoutPrefix (textBefore text place)) ↔
    wordsIn (withoutPrefix (textBefore text place)) = withoutSpokenPrefix place.before := by
  have hlead := lead_edge text
  have htext : withoutPrefix (textBefore text place) =
      (if (searched text).head?.any isJsSpace then [' '] else []) ++ withoutPrefix (frontText place.before) :=
    withoutPrefix_edge hlead _
  have htokens := (wordsIn_blank (blank_edge hlead) (withoutPrefix (frontText place.before))).1
  rw [htext, htokens]
  cases cut_cases (isWord_before h) with
  | whole hcut =>
      rw [hcut]
      refine iff_of_true (atWord_edge hlead (atWord_frontText _)) ?_
      have hleft : ∀ w ∈ withoutSpokenPrefix place.before, IsWord w := fun w hw =>
        isWord_before h w (withoutSpokenPrefix_subset hw)
      have hfront := wordsIn_frontText hleft []
      rwa [List.append_nil, wordsIn_nil, List.append_nil] at hfront
  | inside front kept lost more hkept hlost hwords hcut hexpected =>
      rw [hcut, hexpected]
      have hword : IsWord kept := hwords kept (by simp)
      refine iff_of_false ?_ ?_
      · rw [← List.append_assoc]
        exact not_atWord hword
      · rw [wordsIn_frontText (fun w hw => hwords w (List.mem_append_left _ hw)), wordsIn_word hword.1 hword.2]
        intro hsame
        have hhead := List.append_cancel_left hsame
        have hlength := congrArg List.length (List.cons.inj hhead).1
        have hpos := List.length_pos_of_ne_nil hlost
        rw [List.length_append] at hlength
        omega

/-- The tokens of a text that a code was put into. -/
theorem wordsIn_put (before code after : List Char) :
    wordsIn (trim (collapseSpaces false (before ++ ' ' :: (code ++ ' ' :: after)))) =
      wordsIn before ++ (wordsIn code ++ wordsIn after) := by
  have hspace : isJsSpace ' ' = true := by decide
  rw [wordsIn_tidied, wordsIn_split hspace, wordsIn_split hspace]

/-- The span is found, at its own place or before it. -/
theorem search_place (h : place ∈ placesIn text) : ∃ index ≤ (textBefore text place).length,
    searchAt (word place.span) (latinText text) = some index := by
  obtain ⟨textAfter, htext, _⟩ := latinText_place h
  have hown : word place.span ((latinText text).drop (textBefore text place).length) = true := by
    rw [htext, List.drop_left]
    exact List.isPrefixOf_iff_prefix.mpr (List.prefix_append _ _)
  have hlength : (textBefore text place).length ≤ (latinText text).length := by
    rw [htext, List.length_append]
    omega
  cases hsearch : searchAt (word place.span) (latinText text) with
  | none =>
      rw [searchAt_none hsearch hlength] at hown
      cases hown
  | some index =>
      refine ⟨index, ?_, rfl⟩
      by_contra hlt
      rw [(searchAt_some hsearch).2.2 _ (by omega)] at hown
      cases hown

/-- **At its own place the tokens are those**, exactly if the prefix begins a word. -/
theorem applied_own (h : place ∈ placesIn text)
    (hsearch : searchAt (word place.span) (latinText text) = some (textBefore text place).length) (code : List Char) :
    Replaces text place.span place code ↔ AtWord (withoutPrefix (textBefore text place)) := by
  obtain ⟨textAfter, htext, hafter⟩ := latinText_place h
  have htake : (latinText text).take (textBefore text place).length = textBefore text place := by
    rw [htext, List.take_left]
  have hdrop : (latinText text).drop ((textBefore text place).length + place.span.length) = textAfter := by
    rw [htext, ← List.append_assoc, ← List.length_append, List.drop_left]
  have hanswer : applyResolvedCode text place.span code = some (trim (collapseSpaces false
      (withoutPrefix (textBefore text place) ++ ' ' :: (code ++ ' ' :: textAfter)))) := by
    unfold applyResolvedCode
    rw [hsearch, Option.map_some, htake, hdrop]
  unfold Replaces
  simp only [hanswer, Option.some.injEq, exists_eq_left', wordsIn_put, hafter]
  unfold replaced
  rw [List.append_cancel_right_eq, before_iff h]

/-- A word that is none of some tokens. -/
theorem fresh_word (ts : List (List Char)) : ∃ w, IsWord w ∧ w ∉ ts := by
  refine ⟨List.replicate (ts.flatten.length + 1) 'a', ⟨List.cons_ne_nil _ _, fun c hc => ?_⟩, fun hmem => ?_⟩
  · rw [List.eq_of_mem_replicate hc]
    rfl
  · have hle := (List.sublist_flatten_of_mem hmem).length_le
    rw [List.length_replicate] at hle
    omega

/-- Found before its place, the number is not what is replaced: more letters are left behind it. -/
theorem applied_before (h : place ∈ placesIn text) {index : ℕ} (hlt : index < (textBefore text place).length)
    (hsearch : searchAt (word place.span) (latinText text) = some index) :
    ∃ code, ¬Replaces text place.span place code := by
  obtain ⟨textAfter, htext, hafter⟩ := latinText_place h
  obtain ⟨init, c, hspan, hc⟩ := span_last h
  generalize hrest : (latinText text).drop (index + place.span.length) = rest
  obtain ⟨code, hword, hfresh⟩ := fresh_word
    (wordsIn (withoutPrefix ((latinText text).take index)) ++ wordsIn rest)
  rw [List.mem_append, not_or] at hfresh
  refine ⟨code, ?_⟩
  rintro ⟨answer, hanswer, hwords⟩
  unfold applyResolvedCode at hanswer
  rw [hsearch, Option.map_some, hrest] at hanswer
  rw [← Option.some.inj hanswer, wordsIn_put, replaced, wordsIn_word hword.1 hword.2] at hwords
  -- the fresh code is where the code is
  have hbehind : wordsIn rest = place.after :=
    ((List.append_cons_inj_of_notMem hfresh.1 hfresh.2).mp hwords).2.2
  have hletters : ((textBefore text place ++ init).drop (index + place.span.length) ++ [c] ++ textAfter) = rest := by
    have hle : index + place.span.length ≤ (textBefore text place ++ init).length := by
      rw [hspan, List.length_append, List.length_append, List.length_singleton]
      omega
    have hrow : textBefore text place ++ (place.span ++ textAfter) =
        (textBefore text place ++ init) ++ ([c] ++ textAfter) := by
      rw [hspan]
      simp
    rw [← hrest, htext, hrow, List.drop_append_of_le_length hle, List.append_assoc]
  have hsame : (rest.filter fun d => !isJsSpace d).length = (textAfter.filter fun d => !isJsSpace d).length := by
    rw [filter_wordsIn, filter_wordsIn, hbehind, hafter]
  rw [← hletters, List.filter_append, List.filter_append, List.filter_cons_of_pos (by rw [hc]; rfl),
    List.length_append, List.length_append, List.length_cons] at hsame
  omega

end Place

/-- The place that was chosen is sound exactly if every code replaces it. -/
theorem replaces_iff {text : List Char} {place : Place} (h : place ∈ placesIn text) :
    (∀ code, Replaces text place.span place code) ↔ Sound text place := by
  have hends : AtWord (textBefore text place) := atWord_edge (lead_edge text) (atWord_frontText _)
  obtain ⟨index, hle, hsearch⟩ := search_place h
  obtain ⟨_, hthere, hbefore⟩ := searchAt_some hsearch
  constructor
  · intro hall
    have hown : index = (textBefore text place).length := by
      by_contra hne
      obtain ⟨code, hcode⟩ := applied_before h (by omega) hsearch
      exact hcode (hall code)
    subst hown
    exact ⟨hbefore, (apart_iff hends).mpr ((applied_own h hsearch []).mp (hall []))⟩
  · intro hsound code
    have hown : index = (textBefore text place).length := by
      by_contra hne
      rw [hsound.first index (by omega)] at hthere
      cases hthere
    subst hown
    exact (applied_own h hsearch code).mpr ((apart_iff hends).mp hsound.apart)

/-- **The number that was chosen is the one that is replaced** by every code, exactly if its place is sound: its
span is nowhere before it, and the spoken prefix before it begins a word. -/
theorem resolved_iff {text : List Char} {candidates : List CodeCandidate} {r : ResolvedCode}
    (h : matchSpokenCode text candidates = some r) :
    ∃ place scored, chosenPlace text candidates = some (place, scored) ∧ place.span = r.span ∧
      ((∀ code, Replaces text r.span place code) ↔ Sound text place) := by
  obtain ⟨place, scored, hchosen, hplace, hspan⟩ := matchSpokenCode_place h
  refine ⟨place, scored, hchosen, hspan, ?_⟩
  rw [← hspan]
  exact replaces_iff hplace

/-! ### Ten in a sentence -/

theorem readings_ten : readings [['د', 'ه']] = [digitsOf 10] :=
  readings_spelledWords (n := 10) (by decide) (by decide)

/-- A code with the digits of ten is what is said by ten. -/
theorem matched_ten {text : List Char} (before after : List (List Char))
    (h : placesIn text = [⟨before, [['د', 'ه']], after, readings [['د', 'ه']]⟩]) :
    matchSpokenCode text [⟨['T', 'R', 'B', '1', '0'], none⟩] =
      some ⟨['د', 'ه'], [⟨['T', 'R', 'B', '1', '0'], none⟩]⟩ := by
  have hnumbers : spokenNumbers text = [⟨['د', 'ه'], [digitsOf 10]⟩] := by
    rw [spokenNumbers_places, h, readings_ten]
    rfl
  have hfar : ∀ d ∈ ([] : List CodeCandidate) ++ [], 1 ≤ digitsApart (digitsOf 10) (digitsIn d.code) :=
    fun _ hd => absurd hd List.not_mem_nil
  exact said_alone hnumbers (by decide) hfar

/-- «کد ده» and the code with ten in it. -/
theorem resolved_iff_ten : ∃ place scored,
    chosenPlace ['ک', 'د', ' ', 'د', 'ه'] [⟨['T', 'R', 'B', '1', '0'], none⟩] = some (place, scored) ∧
      place.span = ['د', 'ه'] ∧
      ((∀ code, Replaces ['ک', 'د', ' ', 'د', 'ه'] ['د', 'ه'] place code) ↔
        Sound ['ک', 'د', ' ', 'د', 'ه'] place) :=
  resolved_iff (matched_ten [['ک', 'د']] [] rfl)

/-- In «ده تن کد ده» the code is the second number, and the first one is replaced. -/
theorem not_resolved : ¬∀ (text : List Char) (candidates : List CodeCandidate) (r : ResolvedCode) (place : Place)
    (scored : List Scored) (code : List Char), matchSpokenCode text candidates = some r →
      chosenPlace text candidates = some (place, scored) → Replaces text r.span place code := by
  intro hall
  have hplaces : placesIn ['د', 'ه', ' ', 'ت', 'ن', ' ', 'ک', 'د', ' ', 'د', 'ه'] =
      [⟨[['د', 'ه'], ['ت', 'ن'], ['ک', 'د']], [['د', 'ه']], [], readings [['د', 'ه']]⟩] := rfl
  have hmatch := matched_ten _ _ hplaces
  obtain ⟨place, scored, hchosen, hplace, _⟩ := matchSpokenCode_place hmatch
  obtain ⟨answer, hanswer, hwords⟩ := hall _ _ _ _ _ ['T', 'R', 'B', '1', '0'] hmatch hchosen
  rw [hplaces, List.mem_singleton] at hplace
  have hcode : applyResolvedCode ['د', 'ه', ' ', 'ت', 'ن', ' ', 'ک', 'د', ' ', 'د', 'ه'] ['د', 'ه']
      ['T', 'R', 'B', '1', '0'] =
        some ['T', 'R', 'B', '1', '0', ' ', 'ت', 'ن', ' ', 'ک', 'د', ' ', 'د', 'ه'] := by decide
  rw [hplace, ← Option.some.inj (hcode.symm.trans hanswer)] at hwords
  revert hwords
  unfold replaced
  decide

end TransportBackend.ResolvedCodes
