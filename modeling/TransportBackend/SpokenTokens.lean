import TransportBackend.SpokenNumbers

/-!
# The tokens of a text and its spaces

A text whose runs of spaces come to one is its tokens with a space between them, with or without a space at
either end, so that a place between two tokens is a place in the text.

* `wordsIn_letter`: a letter before a word belongs to it;
* `isWord_wordsIn`: the tokens are words;
* `collapse_words`: **a text with single spaces is its tokens**;
* `wordsIn_tidied`: tidying the spaces leaves the tokens;
* `filter_wordsIn`: what is no space is in the tokens.
-/

namespace TransportBackend.SpokenTokens

open TransportBackend.PersianNumberWords
open TransportBackend.PriceTexts
open TransportBackend.SpokenNumbers
open TransportBackend.TrimmedTexts
open TransportBackend.TripFareRules

/-! ### Words -/

theorem wordsIn_nil : wordsIn [] = [] := rfl

theorem wordsIn_space {c : Char} (hc : isJsSpace c = true) (t : List Char) : wordsIn (c :: t) = wordsIn t :=
  wordsIn_split hc [] t

/-- A letter before the end or a space is a word of its own. -/
theorem wordsIn_last {c : Char} (hc : isJsSpace c = false) {t : List Char}
    (ht : t = [] ∨ ∃ d u, t = d :: u ∧ isJsSpace d = true) : wordsIn (c :: t) = [c] :: wordsIn t := by
  have hone : wordsIn [c] = [[c]] := wordsIn_word (List.cons_ne_nil c []) fun d hd => List.mem_singleton.mp hd ▸ hc
  rcases ht with rfl | ⟨d, u, rfl, hd⟩
  · exact hone
  · have hsplit := wordsIn_split hd [c] u
    rw [hone] at hsplit
    rw [wordsIn_space hd]
    exact hsplit

/-- A letter before another belongs to its word. -/
theorem wordsIn_letter {c d : Char} (hc : isJsSpace c = false) (hd : isJsSpace d = false) (t : List Char) :
    ∃ w ws, wordsIn (d :: t) = w :: ws ∧ wordsIn (c :: d :: t) = (c :: w) :: ws := by
  obtain ⟨h, tl, hsplit⟩ := List.exists_cons_of_ne_nil (List.splitOnP_ne_nil isJsSpace t)
  have hone : (d :: t).splitOnP isJsSpace = (d :: h) :: tl := by
    rw [List.splitOnP_cons_eq_if_modifyHead, hd, if_neg Bool.false_ne_true, hsplit]
    rfl
  have htwo : (c :: d :: t).splitOnP isJsSpace = (c :: d :: h) :: tl := by
    rw [List.splitOnP_cons_eq_if_modifyHead, hc, if_neg Bool.false_ne_true, hone]
    rfl
  refine ⟨d :: h, tl.filter (· ≠ []), ?_, ?_⟩
  · unfold wordsIn
    rw [hone, List.filter_cons_of_pos (by simp)]
  · unfold wordsIn
    rw [htwo, List.filter_cons_of_pos (by simp)]

/-- A text is empty, or begins with a space or with a letter. -/
theorem head_cases (t : List Char) : t = [] ∨ (∃ c u, t = c :: u ∧ isJsSpace c = true) ∨
    ∃ c u, t = c :: u ∧ isJsSpace c = false := by
  rcases t with _ | ⟨c, u⟩
  · exact .inl rfl
  · cases hc : isJsSpace c with
    | true => exact .inr (.inl ⟨c, u, rfl, hc⟩)
    | false => exact .inr (.inr ⟨c, u, rfl, hc⟩)

/-- **The tokens are words.** -/
theorem isWord_wordsIn (t : List Char) : ∀ w ∈ wordsIn t, IsWord w := by
  induction t with
  | nil => exact fun w hw => absurd hw List.not_mem_nil
  | cons c t ih =>
      cases hc : isJsSpace c with
      | true =>
          rw [wordsIn_space hc]
          exact ih
      | false =>
          have hletter : IsWord [c] := ⟨List.cons_ne_nil c [], fun d hd => List.mem_singleton.mp hd ▸ hc⟩
          rcases head_cases t with rfl | ⟨d, u, rfl, hd⟩ | ⟨d, u, rfl, hd⟩
          · rw [wordsIn_last hc (.inl rfl)]
            intro w hw
            rw [List.mem_singleton.mp hw]
            exact hletter
          · rw [wordsIn_last hc (.inr ⟨d, u, rfl, hd⟩)]
            intro w hw
            rcases List.mem_cons.mp hw with rfl | hw
            · exact hletter
            · exact ih w hw
          · obtain ⟨w, ws, hwords, hmore⟩ := wordsIn_letter hc hd u
            rw [hwords] at ih
            rw [hmore]
            intro v hv
            rcases List.mem_cons.mp hv with rfl | hv
            · obtain ⟨_, hchars⟩ := ih w List.mem_cons_self
              refine ⟨List.cons_ne_nil c w, fun e he => ?_⟩
              rcases List.mem_cons.mp he with rfl | he
              · exact hc
              · exact hchars e he
            · exact ih v (List.mem_cons_of_mem w hv)

/-- What is no space is in the tokens. -/
theorem filter_wordsIn (t : List Char) : t.filter (fun c => !isJsSpace c) = (wordsIn t).flatten := by
  induction t with
  | nil => rfl
  | cons c t ih =>
      cases hc : isJsSpace c with
      | true => rw [wordsIn_space hc, List.filter_cons_of_neg (by rw [hc]; exact Bool.false_ne_true), ih]
      | false =>
          rw [List.filter_cons_of_pos (by rw [hc]; rfl), ih]
          rcases head_cases t with rfl | ⟨d, u, rfl, hd⟩ | ⟨d, u, rfl, hd⟩
          · rw [wordsIn_last hc (.inl rfl)]
            rfl
          · rw [wordsIn_last hc (.inr ⟨d, u, rfl, hd⟩)]
            rfl
          · obtain ⟨w, ws, hwords, hmore⟩ := wordsIn_letter hc hd u
            rw [hwords, hmore]
            rfl

/-! ### Single spaces -/

/-- Nothing, or a space. -/
def Edge (t : List Char) : Prop := t = [] ∨ t = [' ']

theorem spaced_letter (c : Char) (w : List Char) (ws : List (List Char)) :
    spaced ((c :: w) :: ws) = c :: spaced (w :: ws) := by
  by_cases hnil : ws = []
  · subst hnil
    have hone : ∀ v : List Char, spaced [v] = v := fun v => List.intercalate_singleton
    rw [hone, hone]
  · rw [spaced_cons _ hnil, spaced_cons _ hnil, List.cons_append]

/-- In a run of spaces and outside of one; a text of spaces only leaves nothing of itself in a run. -/
theorem collapse_flagged (t : List Char) : ∃ lead trail, Edge lead ∧ Edge trail ∧
    collapseSpaces false t = lead ++ (spaced (wordsIn t) ++ trail) ∧
    collapseSpaces true t = spaced (wordsIn t) ++ trail ∧
    (wordsIn t = [] → trail = []) ∧ ((∀ c u, t = c :: u → isJsSpace c = false) → lead = []) ∧
    ((∃ c u, t = c :: u ∧ isJsSpace c = true) → lead = [' ']) := by
  induction t with
  | nil =>
      refine ⟨[], [], .inl rfl, .inl rfl, rfl, rfl, fun _ => rfl, fun _ => rfl, ?_⟩
      rintro ⟨c, u, h, _⟩
      cases h
  | cons c t ih =>
      obtain ⟨lead, trail, hlead, htrail, houtside, hinside, hempty, hnoLead, hspaceLead⟩ := ih
      cases hc : isJsSpace c with
      | true =>
          refine ⟨[' '], trail, .inr rfl, htrail, ?_, ?_, ?_, fun h => ?_, fun _ => rfl⟩
          · rw [wordsIn_space hc, collapseSpaces, if_pos hc, hinside]
            rfl
          · rw [wordsIn_space hc, collapseSpaces, if_pos hc, hinside]
            rfl
          · rwa [wordsIn_space hc]
          · rw [h c t rfl] at hc
            cases hc
      | false =>
          have hsame : ∀ inRun, collapseSpaces inRun (c :: t) = c :: (lead ++ (spaced (wordsIn t) ++ trail)) := by
            intro inRun
            rw [collapseSpaces, hc, if_neg Bool.false_ne_true, houtside]
          -- the letter goes to the first word, or before the space that follows it
          have hwhole : ∃ back, Edge back ∧
              c :: (lead ++ (spaced (wordsIn t) ++ trail)) = spaced (wordsIn (c :: t)) ++ back := by
            rcases head_cases t with rfl | ⟨d, u, rfl, hd⟩ | ⟨d, u, rfl, hd⟩
            · refine ⟨trail, htrail, ?_⟩
              rw [hnoLead (fun e v h => by cases h), hempty wordsIn_nil, wordsIn_last hc (.inl rfl)]
              rfl
            · rw [hspaceLead ⟨d, u, rfl, hd⟩, wordsIn_last hc (.inr ⟨d, u, rfl, hd⟩)]
              by_cases hnone : wordsIn (d :: u) = []
              · refine ⟨[' '], .inr rfl, ?_⟩
                rw [hempty hnone, hnone]
                rfl
              · refine ⟨trail, htrail, ?_⟩
                rw [spaced_cons _ hnone]
                rfl
            · obtain ⟨w, ws, hwords, hmore⟩ := wordsIn_letter hc hd u
              refine ⟨trail, htrail, ?_⟩
              rw [hnoLead (fun e v h => by rw [← (List.cons.inj h).1]; exact hd), hwords, hmore, spaced_letter]
              rfl
          obtain ⟨back, hback, hwords⟩ := hwhole
          have hne : wordsIn (c :: t) ≠ [] := by
            rcases head_cases t with rfl | ⟨d, u, rfl, hd⟩ | ⟨d, u, rfl, hd⟩
            · rw [wordsIn_last hc (.inl rfl)]
              exact List.cons_ne_nil _ _
            · rw [wordsIn_last hc (.inr ⟨d, u, rfl, hd⟩)]
              exact List.cons_ne_nil _ _
            · obtain ⟨w, ws, _, hmore⟩ := wordsIn_letter hc hd u
              rw [hmore]
              exact List.cons_ne_nil _ _
          refine ⟨[], back, .inl rfl, hback, ?_, ?_, fun h => absurd h hne, fun _ => rfl, ?_⟩
          · rw [hsame, hwords]
            rfl
          · rw [hsame, hwords]
          · rintro ⟨d, u, h, hd⟩
            rw [← (List.cons.inj h).1, hc] at hd
            cases hd

/-- **A text with single spaces is its tokens**, with or without a space at either end. -/
theorem collapse_words (t : List Char) : ∃ lead trail, Edge lead ∧ Edge trail ∧
    collapseSpaces false t = lead ++ (spaced (wordsIn t) ++ trail) := by
  obtain ⟨lead, trail, hlead, htrail, h, _⟩ := collapse_flagged t
  exact ⟨lead, trail, hlead, htrail, h⟩

/-! ### Tidying -/

theorem wordsIn_blank {l : List Char} (hl : Blank l) (t : List Char) :
    wordsIn (l ++ t) = wordsIn t ∧ wordsIn (t ++ l) = wordsIn t := by
  induction l generalizing t with
  | nil => exact ⟨rfl, by rw [List.append_nil]⟩
  | cons c l ih =>
      have hc : isJsSpace c = true := hl.head
      obtain ⟨hfront, _⟩ := ih hl.tail t
      obtain ⟨_, hback⟩ := ih hl.tail []
      constructor
      · rw [List.cons_append, wordsIn_space hc, hfront]
      · rw [wordsIn_split hc, ← List.nil_append l, hback, wordsIn_nil, List.append_nil]

theorem wordsIn_trim (t : List Char) : wordsIn (trim t) = wordsIn t := by
  obtain ⟨l, r, hl, hr, ht⟩ := trim_split t
  have hall : wordsIn t = wordsIn (l ++ (trim t ++ r)) := by rw [← ht]
  rw [hall, (wordsIn_blank hl _).1, (wordsIn_blank hr _).2]

theorem blank_edge {t : List Char} (h : Edge t) : Blank t := by
  rcases h with rfl | rfl
  · exact fun c hc => absurd hc List.not_mem_nil
  · exact fun c hc => by rw [List.mem_singleton.mp hc]; rfl

/-- **Tidying the spaces leaves the tokens.** -/
theorem wordsIn_tidied (t : List Char) : wordsIn (trim (collapseSpaces false t)) = wordsIn t := by
  obtain ⟨lead, trail, hlead, htrail, h⟩ := collapse_words t
  rw [wordsIn_trim, h, (wordsIn_blank (blank_edge hlead) _).1, (wordsIn_blank (blank_edge htrail) _).2,
    wordsIn_spaced (isWord_wordsIn t)]

/-- The tokens of a front. -/
theorem wordsIn_frontText {front : List (List Char)} (h : ∀ w ∈ front, IsWord w) (t : List Char) :
    wordsIn (frontText front ++ t) = front ++ wordsIn t := by
  induction front with
  | nil => rfl
  | cons w front ih =>
      obtain ⟨hne, hchars⟩ := h w List.mem_cons_self
      have hcons : frontText (w :: front) ++ t = w ++ ' ' :: (frontText front ++ t) := by
        show w ++ [' '] ++ frontText front ++ t = _
        simp
      rw [hcons, wordsIn_split (by decide), wordsIn_word hne hchars, ih fun v hv => h v (List.mem_cons_of_mem w hv)]
      rfl

end TransportBackend.SpokenTokens
