import TransportBackend.SpokenMatches
import TransportBackend.SpokenTokens

/-!
# Where a spoken number stands

`spokenNumbers` forgets where its runs stand.  Here every number keeps the tokens before it and after it, and
so does the one that `matchSpokenCode` chooses.

* `Place`, `placesIn`: the numbers of a text and where they stand;
* `spokenNumbers_places`: **without their places they are the numbers of the text**;
* `placesIn_split`: the tokens before, in and after a number are those of the text;
* `chosenPlace`, `matchSpokenCode_place`: **the place that is chosen**.
-/

namespace TransportBackend.SpokenPlaces

open TransportBackend.PersianNumberWords
open TransportBackend.PriceTexts
open TransportBackend.SpokenMatches
open TransportBackend.SpokenNumbers
open TransportBackend.SpokenTokens
open TransportBackend.TripFareRules

/-! ### Numbers in their places -/

/-- A number and the tokens around it. -/
structure Place where
  before : List (List Char)
  run : List (List Char)
  after : List (List Char)
  readings : List (List Char)

/-- The span of the number. -/
def Place.span (place : Place) : List Char := spaced place.run

/-- A run without a last «و», and that «و». -/
def lastJoinerApart (run : List (List Char)) : List (List Char) × List (List Char) :=
  if run.getLast? = some joiner ∧ 1 < run.length then (run.dropLast, [joiner]) else (run, [])

/-- A run that ended behind tokens and before others; before a unit it is no number. -/
def endedAt (passed run rest : List (List Char)) : List Place :=
  let words := run.filter (· ≠ joiner)
  if words ≠ [] ∧ rest.head?.any (unitAfter.contains ·) = false then
    [⟨passed, (lastJoinerApart run).1, (lastJoinerApart run).2 ++ rest, readings words⟩]
  else []

/-- The numbers of the tokens that are left, behind a run and what was passed before it. -/
def placesFrom (passed : List (List Char)) : List (List Char) → List (List Char) → List Place
  | run, [] => if run ≠ [] then endedAt passed run [] else []
  | run, token :: rest =>
      if isNumberWord token ∨ (token = joiner ∧ run ≠ [] ∧ rest ≠ []) then placesFrom passed (run ++ [token]) rest
      else (if run ≠ [] then endedAt passed run (token :: rest) else []) ++
        placesFrom (passed ++ run ++ [token]) [] rest

def placesIn (text : List Char) : List Place := placesFrom [] [] (tokens text)

/-! ### The numbers of the text -/

/-- Without its place. -/
def Place.number (place : Place) : SpokenNumber := ⟨place.span, place.readings⟩

/-- A last «و» is left out of the span. -/
theorem withoutLastJoiner_spaced {run : List (List Char)} (hrun : ∀ w ∈ run, IsWord w) (hne : run ≠ []) :
    withoutLastJoiner (spaced run) = spaced (lastJoinerApart run).1 := by
  obtain ⟨init, w, rfl⟩ : ∃ init w, run = init ++ [w] := ⟨_, _, (List.dropLast_append_getLast hne).symm⟩
  have hw := hrun w (by simp)
  unfold lastJoinerApart
  simp only [List.getLast?_concat, Option.some.injEq]
  by_cases hjoiner : w = joiner
  · subst hjoiner
    by_cases hinit : init = []
    · subst hinit
      rw [if_neg (by simp)]
      decide
    · have hlength : 1 < (init ++ [joiner]).length := by
        rw [List.length_append, List.length_singleton]
        have hpos := List.length_pos_of_ne_nil hinit
        omega
      -- behind the letters of the word before it stands a space and «و»
      obtain ⟨front, v, rfl⟩ : ∃ front v, init = front ++ [v] := ⟨_, _, (List.dropLast_append_getLast hinit).symm⟩
      obtain ⟨hv, hchars⟩ := hrun v (by simp)
      obtain ⟨body, c, rfl⟩ : ∃ body c, v = body ++ [c] := ⟨_, _, (List.dropLast_append_getLast hv).symm⟩
      have hone : ∀ u : List Char, spaced [u] = u := fun u => List.intercalate_singleton
      have hlast : spaced (front ++ [body ++ [c]]) = frontText front ++ body ++ [c] := by
        rw [spaced_front front (List.cons_ne_nil _ _), hone, List.append_assoc]
      have htext : (spaced (front ++ [body ++ [c]] ++ [joiner])).reverse =
          'و' :: ' ' :: (spaced (front ++ [body ++ [c]])).reverse := by
        rw [spaced_append hinit (List.cons_ne_nil _ _), hone]
        simp [joiner]
      have hstays : (spaced (front ++ [body ++ [c]])).reverse.dropWhile isJsSpace =
          (spaced (front ++ [body ++ [c]])).reverse := by
        have hc : isJsSpace c = false := hchars c (by simp)
        rw [hlast, List.reverse_append, List.reverse_singleton, List.singleton_append,
          List.dropWhile_cons_of_neg (by rw [hc]; exact Bool.false_ne_true)]
      rw [if_pos ⟨rfl, hlength⟩, List.dropLast_concat]
      unfold withoutLastJoiner
      rw [htext]
      have hspace : isJsSpace ' ' = true := by decide
      refine (if_pos hspace).trans ?_
      rw [hstays, List.reverse_reverse]
  · rw [if_neg fun h => hjoiner h.1]
    exact withoutLastJoiner_word hw hjoiner

theorem lastJoinerApart_append (run : List (List Char)) :
    (lastJoinerApart run).1 ++ (lastJoinerApart run).2 = run := by
  unfold lastJoinerApart
  split
  · rename_i h
    exact List.dropLast_append_getLast? joiner h.1
  · exact List.append_nil run

theorem lastJoinerApart_ne_nil {run : List (List Char)} (hne : run ≠ []) : (lastJoinerApart run).1 ≠ [] := by
  unfold lastJoinerApart
  split
  · rename_i h
    refine List.ne_nil_of_length_pos ?_
    rw [List.length_dropLast]
    omega
  · exact hne

/-- The numbers of a run that ended. -/
theorem ended_places {run : List (List Char)} (hrun : ∀ w ∈ run, IsWord w) (passed rest : List (List Char)) :
    (ended run rest.head?).map (fun number => { number with span := withoutLastJoiner number.span }) =
      (endedAt passed run rest).map Place.number := by
  unfold ended endedAt
  dsimp only
  split
  · rename_i hwords
    have hne : run ≠ [] := by
      rintro rfl
      exact hwords.1 rfl
    rw [List.map_singleton, List.map_singleton]
    dsimp only
    rw [withoutLastJoiner_spaced hrun hne]
    rfl
  · rfl

theorem numbersFrom_places {run rest : List (List Char)} (hrun : ∀ w ∈ run, IsWord w) (hrest : ∀ w ∈ rest, IsWord w)
    (passed : List (List Char)) :
    (numbersFrom run rest).map (fun number => { number with span := withoutLastJoiner number.span }) =
      (placesFrom passed run rest).map Place.number := by
  induction rest generalizing run passed with
  | nil =>
      rw [numbersFrom, placesFrom]
      split
      · exact ended_places hrun passed []
      · rfl
  | cons token rest ih =>
      have htoken := hrest token List.mem_cons_self
      have hmore : ∀ w ∈ rest, IsWord w := fun w hw => hrest w (List.mem_cons_of_mem token hw)
      rw [numbersFrom, placesFrom]
      split
      · refine ih (fun w hw => ?_) hmore passed
        rcases List.mem_append.mp hw with hw | hw
        · exact hrun w hw
        · rw [List.mem_singleton.mp hw]
          exact htoken
      · rw [List.map_append, List.map_append, ih (fun _ hw => absurd hw List.not_mem_nil) hmore]
        congr 1
        split
        · exact ended_places hrun passed (token :: rest)
        · rfl

/-- **Without their places they are the numbers of the text.** -/
theorem spokenNumbers_places (text : List Char) : spokenNumbers text = (placesIn text).map Place.number :=
  numbersFrom_places (fun _ hw => absurd hw List.not_mem_nil) (isWord_wordsIn _) []

/-! ### The tokens around a number -/

theorem endedAt_split {passed run rest : List (List Char)} (hne : run ≠ []) :
    ∀ place ∈ endedAt passed run rest,
      place.before ++ (place.run ++ place.after) = passed ++ (run ++ rest) ∧ place.run ≠ [] := by
  intro place hplace
  unfold endedAt at hplace
  dsimp only at hplace
  split at hplace
  · rw [List.mem_singleton.mp hplace]
    refine ⟨?_, lastJoinerApart_ne_nil hne⟩
    show passed ++ ((lastJoinerApart run).1 ++ ((lastJoinerApart run).2 ++ rest)) = _
    rw [← List.append_assoc (lastJoinerApart run).1, lastJoinerApart_append]
  · cases hplace

theorem placesFrom_split (passed run rest : List (List Char)) :
    ∀ place ∈ placesFrom passed run rest,
      place.before ++ (place.run ++ place.after) = passed ++ (run ++ rest) ∧ place.run ≠ [] := by
  induction rest generalizing passed run with
  | nil =>
      rw [placesFrom]
      split
      · rename_i hne
        exact endedAt_split hne
      · exact fun place hplace => absurd hplace List.not_mem_nil
  | cons token rest ih =>
      rw [placesFrom]
      split
      · intro place hplace
        have hmore := ih passed (run ++ [token]) place hplace
        rwa [List.append_assoc, List.singleton_append] at hmore
      · intro place hplace
        rcases List.mem_append.mp hplace with hplace | hplace
        · split at hplace
          · rename_i hne
            exact endedAt_split hne place hplace
          · cases hplace
        · have hmore := ih (passed ++ run ++ [token]) [] place hplace
          simpa using hmore

/-- **The tokens before, in and after a number are those of the text.** -/
theorem placesIn_split {text : List Char} {place : Place} (h : place ∈ placesIn text) :
    place.before ++ (place.run ++ place.after) = tokens text ∧ place.run ≠ [] :=
  placesFrom_split [] [] (tokens text) place h

/-! ### The place that is chosen -/

/-- The place whose nearest code is nearest, with its codes. -/
def chosenPlace (text : List Char) (candidates : List CodeCandidate) : Option (Place × List Scored) :=
  closest ((placesIn text).map fun place => (place, scoredFor place.readings candidates))

section Closest

variable {α β : Type} (f : α → β)

theorem better_map (best : Option (α × List Scored)) (number : α × List Scored) :
    better (best.map (Prod.map f id)) (number.map f id) = (better best number).map (Prod.map f id) := by
  unfold better
  rw [Prod.map_snd, id_eq]
  cases number.2.head? with
  | none => rfl
  | some first =>
      cases best with
      | none => rfl
      | some held =>
          dsimp only [Option.map_some, Prod.map_snd, id_eq]
          split <;> rfl

/-- What is kept of a number has no say in the choice. -/
theorem closest_map (numbers : List (α × List Scored)) :
    closest (numbers.map (Prod.map f id)) = (closest numbers).map (Prod.map f id) := by
  have hfold : ∀ best : Option (α × List Scored),
      (numbers.map (Prod.map f id)).foldl better (best.map (Prod.map f id)) =
        (numbers.foldl better best).map (Prod.map f id) := by
    induction numbers with
    | nil => exact fun best => rfl
    | cons number numbers ih =>
        intro best
        rw [List.map_cons, List.foldl_cons, List.foldl_cons, better_map, ih]
  exact hfold none

end Closest

theorem better_mem {α : Type} {best : Option (α × List Scored)} {number chosen : α × List Scored}
    (h : better best number = some chosen) : best = some chosen ∨ number = chosen := by
  unfold better at h
  split at h
  · exact .inl h
  · exact .inr (Option.some.inj h)
  · split at h
    · exact .inr (Option.some.inj h)
    · exact .inl h

/-- What is chosen is one of the numbers. -/
theorem closest_mem {α : Type} {numbers : List (α × List Scored)} {chosen : α × List Scored}
    (h : closest numbers = some chosen) : chosen ∈ numbers := by
  have hfold : ∀ best : Option (α × List Scored), numbers.foldl better best = some chosen →
      best = some chosen ∨ chosen ∈ numbers := by
    clear h
    induction numbers with
    | nil => exact fun best hbest => .inl hbest
    | cons number numbers ih =>
        intro best hbest
        rcases ih (better best number) hbest with hnext | hmem
        · rcases better_mem hnext with hheld | rfl
          · exact .inl hheld
          · exact .inr List.mem_cons_self
        · exact .inr (List.mem_cons_of_mem number hmem)
  exact (hfold none h).resolve_left fun hnone => by cases hnone

/-- **The place that is chosen** has the span that is answered, and is one of the text. -/
theorem matchSpokenCode_place {text : List Char} {candidates : List CodeCandidate} {r : ResolvedCode}
    (h : matchSpokenCode text candidates = some r) :
    ∃ place scored, chosenPlace text candidates = some (place, scored) ∧ place ∈ placesIn text ∧
      place.span = r.span := by
  have hsame : (spokenNumbers text).map (fun number => (number.span, scoredFor number.readings candidates)) =
      ((placesIn text).map fun place => (place, scoredFor place.readings candidates)).map
        (Prod.map Place.span id) := by
    rw [spokenNumbers_places, List.map_map, List.map_map]
    rfl
  unfold matchSpokenCode at h
  split at h
  · cases h
  · rw [hsame, closest_map] at h
    obtain ⟨best, hbest, rfl⟩ := Option.map_eq_some_iff.mp h
    obtain ⟨chosen, hchosen, rfl⟩ := Option.map_eq_some_iff.mp hbest
    refine ⟨chosen.1, chosen.2, hchosen, ?_, rfl⟩
    obtain ⟨place, hplace, hpair⟩ := List.mem_map.mp (closest_mem hchosen)
    rw [← hpair]
    exact hplace

end TransportBackend.SpokenPlaces
