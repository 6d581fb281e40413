import TransportBackend.GroupedReaders

/-!
# The price of a text that was grouped

`parsePriceToman` normalizes a text before it leaves separators out, and it looks for a group of exactly
three digits behind a digit and a separator.  So it matters what the characters around a run become.

* `Inert`: normalizing keeps digits and commas, and what stands before and behind them apart;
* `NoMeeting`: no run meets the digits and separators around it;
* `parsePriceToman_grouped`: where that is so, a price is read as before;
* `readers_grouped`: **when all the readers read the same**;
* `not_readers_grouped`: a comma or a space before the run may change a price tenfold and more.
-/

namespace TransportBackend.GroupedPrices

open TransportBackend.DigitGroups
open TransportBackend.GroupedReaders
open TransportBackend.MoneyTexts
open TransportBackend.PriceForms
open TransportBackend.PriceGroups
open TransportBackend.PriceReaders
open TransportBackend.PriceTexts
open TransportBackend.TextPatterns
open TransportBackend.TrimmedTexts
open TransportBackend.TripFareRules

/-! ### Normalizing around digits -/

/-- Digits and the commas that are put between them. -/
def isInert (c : Char) : Bool := isAnyDigit c || c == ',' || c == '٬'

/-- A digit or a comma stays what it is, and neither composes with its neighbours nor has a say in their case. -/
structure Inert (n : Normalizer) : Prop where
  nfkc_nil : n.nfkc [] = []
  nfkc_split : ∀ a c b, isInert c = true → n.nfkc (a ++ c :: b) = n.nfkc a ++ c :: n.nfkc b
  lowerCase_nil : n.lowerCase [] = []
  lowerCase_split : ∀ a c b, isInert c = true → n.lowerCase (a ++ c :: b) = n.lowerCase a ++ c :: n.lowerCase b

/-- A text before its outer spaces are trimmed and its letters are made small. -/
def prepared (n : Normalizer) (text : List Char) : List Char :=
  collapseSpaces false (latin (((n.nfkc text).filter fun c => !isInvisible c).map persianLetter))

def trimRight (text : List Char) : List Char := (text.reverse.dropWhile isJsSpace).reverse

/-- What becomes of the text before a run, between two runs, and behind a run. -/
def normalizedBefore (n : Normalizer) (text : List Char) : List Char :=
  n.lowerCase ((prepared n text).dropWhile isJsSpace)

def normalizedBetween (n : Normalizer) (text : List Char) : List Char := n.lowerCase (prepared n text)

def normalizedBehind (n : Normalizer) (text : List Char) : List Char := n.lowerCase (trimRight (prepared n text))

theorem inert_kept {c : Char} (hc : isInert c = true) :
    isInvisible c = false ∧ persianLetter c = c ∧ isJsSpace (latinDigit c) = false ∧ isInert (latinDigit c) = true := by
  unfold isInert at hc
  rw [Bool.or_eq_true, Bool.or_eq_true, beq_iff_eq, beq_iff_eq] at hc
  rcases hc with (hdigit | rfl) | rfl
  · obtain ⟨hvisible, hkept⟩ := anyDigit_kept hdigit
    refine ⟨hvisible, hkept, digit_not_space hdigit, ?_⟩
    have hlatin : (latinDigit c).isDigit = true := hdigit
    rcases digit_cases hlatin with h | h | h | h | h | h | h | h | h | h <;> rw [h] <;> decide
  · decide
  · decide

theorem collapse_split {c : Char} (hc : isJsSpace c = false) (inRun : Bool) (a b : List Char) :
    collapseSpaces inRun (a ++ c :: b) = collapseSpaces inRun a ++ c :: collapseSpaces false b := by
  induction a generalizing inRun with
  | nil =>
      show (if isJsSpace c then _ else c :: collapseSpaces false b) = _
      rw [hc]
      rfl
  | cons d a ih =>
      rw [List.cons_append, collapseSpaces, collapseSpaces]
      split
      · rw [ih, List.append_assoc]
      · rw [ih]
        rfl

theorem dropWhile_split {c : Char} (hc : isJsSpace c = false) (a b : List Char) :
    (a ++ c :: b).dropWhile isJsSpace = a.dropWhile isJsSpace ++ c :: b := by
  induction a with
  | nil => exact List.dropWhile_cons_of_neg (by rw [hc]; exact Bool.false_ne_true)
  | cons d a ih =>
      rw [List.cons_append]
      cases hd : isJsSpace d with
      | true => rw [List.dropWhile_cons_of_pos hd, List.dropWhile_cons_of_pos hd, ih]
      | false =>
          rw [List.dropWhile_cons_of_neg (by rw [hd]; exact Bool.false_ne_true),
            List.dropWhile_cons_of_neg (by rw [hd]; exact Bool.false_ne_true), List.cons_append]

theorem trimRight_split {c : Char} (hc : isJsSpace c = false) (a b : List Char) :
    trimRight (a ++ c :: b) = a ++ c :: trimRight b := by
  unfold trimRight
  have hreverse : (a ++ c :: b).reverse = b.reverse ++ c :: a.reverse := by simp
  rw [hreverse, dropWhile_split hc]
  simp

theorem trim_eq (t : List Char) : trim t = trimRight (t.dropWhile isJsSpace) := rfl

section Normalized

variable {n : Normalizer} (hn : Inert n)
include hn

theorem prepared_split {c : Char} (hc : isInert c = true) (a b : List Char) :
    prepared n (a ++ c :: b) = prepared n a ++ latinDigit c :: prepared n b := by
  obtain ⟨hvisible, hkept, hspace, _⟩ := inert_kept hc
  unfold prepared
  rw [hn.nfkc_split a c b hc, List.filter_append, List.filter_cons_of_pos (by rw [hvisible]; rfl), List.map_append,
    List.map_cons, hkept, latin_append]
  show collapseSpaces false (_ ++ latinDigit c :: latin _) = _
  exact collapse_split hspace false _ _

theorem prepared_nil : prepared n [] = [] := by
  unfold prepared
  rw [hn.nfkc_nil]
  rfl

theorem normalizedBefore_split {c : Char} (hc : isInert c = true) (a b : List Char) :
    normalizedBefore n (a ++ c :: b) = normalizedBefore n a ++ latinDigit c :: normalizedBetween n b := by
  obtain ⟨_, _, hspace, hinert⟩ := inert_kept hc
  unfold normalizedBefore normalizedBetween
  rw [prepared_split hn hc, dropWhile_split hspace, hn.lowerCase_split _ _ _ hinert]

theorem normalizedBehind_split {c : Char} (hc : isInert c = true) (a b : List Char) :
    normalizedBehind n (a ++ c :: b) = normalizedBetween n a ++ latinDigit c :: normalizedBehind n b := by
  obtain ⟨_, _, hspace, hinert⟩ := inert_kept hc
  unfold normalizedBehind normalizedBetween
  rw [prepared_split hn hc, trimRight_split hspace, hn.lowerCase_split _ _ _ hinert]

theorem normalize_split {c : Char} (hc : isInert c = true) (a b : List Char) :
    normalizePersianText n (a ++ c :: b) = normalizedBefore n a ++ latinDigit c :: normalizedBehind n b := by
  obtain ⟨_, _, hspace, hinert⟩ := inert_kept hc
  show n.lowerCase (trim (prepared n (a ++ c :: b))) = _
  unfold normalizedBefore normalizedBehind
  rw [trim_eq, prepared_split hn hc, dropWhile_split hspace, trimRight_split hspace, hn.lowerCase_split _ _ _ hinert]

/-- Digits and commas behind a run stay where they are. -/
theorem normalizedBehind_run {run : List Char} (hrun : ∀ c ∈ run, isInert c = true) (b : List Char) :
    normalizedBehind n (run ++ b) = latin run ++ normalizedBehind n b := by
  induction run with
  | nil => rfl
  | cons c run ih =>
      have hempty : normalizedBetween n [] = [] := by
        unfold normalizedBetween
        rw [prepared_nil hn, hn.lowerCase_nil]
      have hstep := normalizedBehind_split hn (hrun c List.mem_cons_self) [] (run ++ b)
      rw [List.nil_append, hempty, ih fun d hd => hrun d (List.mem_cons_of_mem c hd)] at hstep
      exact hstep

theorem normalize_run {run : List Char} (hne : run ≠ []) (hrun : ∀ c ∈ run, isInert c = true) (a b : List Char) :
    normalizePersianText n (a ++ (run ++ b)) = normalizedBefore n a ++ (latin run ++ normalizedBehind n b) := by
  obtain ⟨c, run, rfl⟩ := List.exists_cons_of_ne_nil hne
  rw [List.cons_append, normalize_split hn (hrun c List.mem_cons_self),
    normalizedBehind_run hn fun d hd => hrun d (List.mem_cons_of_mem c hd)]
  rfl

theorem normalizedBehind_gap {run : List Char} (hne : run ≠ []) (hrun : ∀ c ∈ run, isInert c = true)
    (a b : List Char) :
    normalizedBehind n (a ++ (run ++ b)) = normalizedBetween n a ++ (latin run ++ normalizedBehind n b) := by
  obtain ⟨c, run, rfl⟩ := List.exists_cons_of_ne_nil hne
  rw [List.cons_append, normalizedBehind_split hn (hrun c List.mem_cons_self),
    normalizedBehind_run hn fun d hd => hrun d (List.mem_cons_of_mem c hd)]
  rfl

theorem normalizedBefore_run {run : List Char} (hne : run ≠ []) (hrun : ∀ c ∈ run, isInert c = true)
    (a b : List Char) :
    normalizedBefore n (a ++ (run ++ b)) = normalizedBefore n a ++ (latin run ++ normalizedBetween n b) := by
  induction run generalizing a with
  | nil => exact absurd rfl hne
  | cons c run ih =>
      have hc := hrun c List.mem_cons_self
      rcases run with _ | ⟨d, run⟩
      · exact normalizedBefore_split hn hc a b
      · have hempty : normalizedBetween n [] = [] := by
          unfold normalizedBetween
          rw [prepared_nil hn, hn.lowerCase_nil]
        have hsplit : a ++ (c :: d :: run ++ b) = (a ++ [c]) ++ (d :: run ++ b) := by simp
        have hone : normalizedBefore n (a ++ [c]) = normalizedBefore n a ++ [latinDigit c] := by
          rw [normalizedBefore_split hn hc, hempty]
        rw [hsplit, ih (List.cons_ne_nil d run) (fun e he => hrun e (List.mem_cons_of_mem c he)), hone,
          List.append_assoc]
        rfl

end Normalized

/-! ### Groups around a run -/

/-- A group is told off in the same way whatever comes behind it. -/
theorem withoutGroups_prefix {front y z : List Char} (hy : noGroup y = true) (hz : noGroup z = true)
    (hrest : withoutGroups y = withoutGroups z)
    (hfollows : ∀ u d s v, front = u ++ d :: s :: v → d.isDigit = true → isGroupSeparator s = true →
      groupFollows (v ++ y) = groupFollows (v ++ z)) :
    withoutGroups (front ++ y) = withoutGroups (front ++ z) := by
  induction hlength : front.length using Nat.strong_induction_on generalizing front with
  | _ length ih =>
      have hshorter : ∀ u t, front = u ++ t → u ≠ [] → withoutGroups (t ++ y) = withoutGroups (t ++ z) := by
        intro u t hsplit hu
        have hpos : 0 < u.length := List.length_pos_of_ne_nil hu
        refine ih t.length ?_ (fun v d s w ht => ?_) rfl
        · rw [← hlength, hsplit, List.length_append]
          omega
        · exact hfollows (u ++ v) d s w (by rw [hsplit, ht, List.append_assoc])
      rcases front with _ | ⟨c, _ | ⟨d, t⟩⟩
      · exact hrest
      · rw [List.singleton_append, List.singleton_append, withoutGroups_cons (.inr hy), withoutGroups_cons (.inr hz),
          hrest]
      · have hafter := hshorter [c, d] t rfl (List.cons_ne_nil c [d])
        have hnext : withoutGroups (d :: (t ++ y)) = withoutGroups (d :: (t ++ z)) :=
          hshorter [c] (d :: t) rfl (List.cons_ne_nil c [])
        show withoutGroups (c :: d :: (t ++ y)) = withoutGroups (c :: d :: (t ++ z))
        rw [withoutGroups, withoutGroups, hafter, hnext]
        cases hpair : c.isDigit && isGroupSeparator d with
        | false => rfl
        | true =>
            obtain ⟨hc, hd⟩ := Bool.and_eq_true_iff.mp hpair
            rw [hfollows [] c d t rfl hc hd]

/-- Digits do not begin a group. -/
theorem noGroup_digits {ds : List Char} (hne : ds ≠ []) (hds : ∀ c ∈ ds, c.isDigit = true) (r : List Char) :
    noGroup (ds ++ r) = true := by
  obtain ⟨d, ds, rfl⟩ := List.exists_cons_of_ne_nil hne
  show (!(isGroupSeparator d && groupFollows (ds ++ r))) = true
  rw [digit_not_groupSeparator (hds d List.mem_cons_self)]
  rfl

/-- Whether a group follows, where a character that is no digit comes first. -/
theorem groupFollows_stops {v : List Char} {s : Char} (hs : s.isDigit = false) (y z : List Char) :
    groupFollows (v ++ s :: y) = groupFollows (v ++ s :: z) := by
  rcases v with _ | ⟨a, _ | ⟨b, _ | ⟨c, _ | ⟨d, v⟩⟩⟩⟩
  · rw [List.nil_append, List.nil_append, groupFollows_cons hs, groupFollows_cons hs]
  · rcases y with _ | ⟨e, y⟩ <;> rcases z with _ | ⟨f, z⟩ <;> simp [groupFollows, hs]
  · simp [groupFollows, hs]
  · rfl
  · rfl

/-- Digits and a character that is no digit: a group of three. -/
theorem groupFollows_digits {ds : List Char} (hds : ∀ c ∈ ds, c.isDigit = true) {r : List Char}
    (hr : r.head?.any Char.isDigit = false) : groupFollows (ds ++ r) = decide (ds.length = 3) := by
  have hlast : ∀ d t, d :: t = r → d.isDigit = false := by
    rintro d t rfl
    exact hr
  rcases ds with _ | ⟨a, _ | ⟨b, _ | ⟨c, _ | ⟨d, ds⟩⟩⟩⟩
  · rcases r with _ | ⟨d, r⟩
    · rfl
    · exact groupFollows_cons (hlast d r rfl) r
  · rcases r with _ | ⟨d, _ | ⟨e, r⟩⟩
    · rfl
    · rfl
    · simp [groupFollows, hlast d _ rfl]
  · rcases r with _ | ⟨d, r⟩
    · rfl
    · simp [groupFollows, hlast d _ rfl]
  · simp [groupFollows, hds a (by simp), hds b (by simp), hds c (by simp), hr]
  · simp [groupFollows, hds d (by simp)]

/-- The separators of a run are taken out. -/
theorem withoutGroups_triples {separator : Char} (hseparator : isGroupSeparator separator = true)
    (hother : separator.isDigit = false) {r : List Char} (hr : r.head?.any Char.isDigit = false)
    {triples : List (List Char)} (hlength : ∀ g ∈ triples, g.length = 3)
    (hdigits : ∀ g ∈ triples, ∀ c ∈ g, c.isDigit = true) {head : List Char} (hne : head ≠ [])
    (hhead : ∀ c ∈ head, c.isDigit = true) :
    withoutGroups (head ++ (triples.flatMap (separator :: ·) ++ r)) =
      withoutGroups (head ++ (triples.flatten ++ r)) := by
  induction triples generalizing head with
  | nil => rfl
  | cons g triples ih =>
      have hg := hdigits g List.mem_cons_self
      have hgne : g ≠ [] := List.ne_nil_of_length_pos (by rw [hlength g List.mem_cons_self]; omega)
      obtain ⟨init, c, rfl⟩ : ∃ init c, head = init ++ [c] := ⟨_, _, (List.dropLast_append_getLast hne).symm⟩
      have hc : c.isDigit = true := hhead c (by simp)
      have hinit : ∀ d ∈ init, d.isDigit = true := fun d hd => hhead d (List.mem_append_left _ hd)
      have hfollows : groupFollows (g ++ (triples.flatMap (separator :: ·) ++ r)) = true := by
        have hend : (triples.flatMap (separator :: ·) ++ r).head?.any Char.isDigit = false := by
          cases triples with
          | nil => exact hr
          | cons => exact hother
        rw [groupFollows_digits hg hend, hlength g List.mem_cons_self]
        rfl
      have hdigit : ∀ t, noGroup (c :: t) = true := fun t => noGroup_digits (List.cons_ne_nil c []) (by simpa) t
      have hshown : withoutGroups (c :: separator :: (g ++ (triples.flatMap (separator :: ·) ++ r))) =
          c :: withoutGroups (g ++ (triples.flatMap (separator :: ·) ++ r)) := by
        rw [withoutGroups, hc, hseparator, hfollows]
        rfl
      have hplain : withoutGroups (c :: (g ++ (triples.flatten ++ r))) =
          c :: withoutGroups (g ++ (triples.flatten ++ r)) := withoutGroups_cons (.inr (noGroup_digits hgne hg _))
      have hrest := ih (fun a ha => hlength a (List.mem_cons_of_mem g ha))
        (fun a ha => hdigits a (List.mem_cons_of_mem g ha)) hgne hg
      rw [List.flatMap_cons, List.flatten_cons, List.append_assoc, List.append_assoc, List.append_assoc,
        List.append_assoc, List.singleton_append, List.singleton_append, List.cons_append,
        withoutGroups_digits hinit (hdigit _), withoutGroups_digits hinit (hdigit _), hshown, hplain, hrest]

/-! ### Runs that meet nothing -/

/-- Normalized, the text behind a run that is grouped does not go on with a digit, and the digits that stand
right before it, with the first group of the run, do not make three behind a digit and a separator. -/
def NoMeeting (n : Normalizer) (text : List Char) : Prop :=
  ∀ before run after, GroupedAt text before run after →
    (normalizedBehind n after).head?.any Char.isDigit = false ∧
      ∀ u d s v, normalizedBefore n before = u ++ d :: s :: v → d.isDigit = true → isGroupSeparator s = true →
        (∀ c ∈ v, c.isDigit = true) → v.length ≤ 2 → ¬3 ∣ v.length + run.length

theorem inert_digit {c : Char} (hc : isAnyDigit c = true) : isInert c = true := by
  unfold isInert
  rw [hc]
  rfl

/-- The characters of a run, and of what it is replaced by. -/
theorem inert_separated {run : List Char} (hne : run ≠ []) (hrun : ∀ c ∈ run, isAnyDigit c = true) :
    separated (separatorOf run) run ≠ [] ∧ ∀ c ∈ separated (separatorOf run) run, isInert c = true := by
  obtain ⟨head, triples, ⟨hhead, _⟩, _, heq, hshown⟩ := separated_thousands (separatorOf run) hne
  rw [hshown]
  refine ⟨fun h => hhead (List.append_eq_nil_iff.mp h).1, fun c hc => ?_⟩
  rcases List.mem_append.mp hc with hc | hc
  · exact inert_digit (hrun c (by rw [heq]; exact List.mem_append_left _ hc))
  · obtain ⟨g, hg, hc⟩ := List.mem_flatMap.mp hc
    rcases List.mem_cons.mp hc with rfl | hc
    · rcases separatorOf_cases run with h | h <;> rw [h] <;> rfl
    · exact inert_digit (hrun c (by
        rw [heq]
        exact List.mem_append_right _ (List.mem_flatten.mpr ⟨g, hg, hc⟩)))

section Run

variable {run : List Char}

/-- The digits of a run and its separators, with as many digits as before. -/
theorem separated_groups (hne : run ≠ []) (hrun : ∀ c ∈ run, isAnyDigit c = true) :
    ∃ (head : List Char) (triples : List (List Char)), (head ≠ [] ∧ head.length ≤ 3) ∧
      ((∀ c ∈ head, c.isDigit = true) ∧ ∀ g ∈ triples, ∀ c ∈ g, c.isDigit = true) ∧
      (∀ g ∈ triples, g.length = 3) ∧ run.length = head.length + 3 * triples.length ∧
      latin run = head ++ triples.flatten ∧
      latin (separated (separatorOf run) run) = head ++ triples.flatMap (separatorOf run :: ·) := by
  obtain ⟨head, triples, hhead, hdigits, hthree, heq, hseparated⟩ := latin_separated hne hrun
  have h := congrArg List.length heq
  rw [latin, List.length_map, List.length_append, List.length_flatten, List.map_congr_left hthree] at h
  exact ⟨head, triples, hhead, hdigits, hthree, by simpa [mul_comm] using h, heq, hseparated⟩

theorem separator_kinds (run : List Char) :
    isGroupSeparator (separatorOf run) = true ∧ (separatorOf run).isDigit = false := by
  rcases separatorOf_cases run with h | h <;> rw [h] <;> decide

theorem triples_stop {triples : List (List Char)} {r : List Char} (hr : r.head?.any Char.isDigit = false) :
    (triples.flatMap (separatorOf run :: ·) ++ r).head?.any Char.isDigit = false := by
  cases triples with
  | nil => exact hr
  | cons => exact (separator_kinds run).2

theorem withoutGroups_separated (hne : run ≠ []) (hrun : ∀ c ∈ run, isAnyDigit c = true) {r : List Char}
    (hr : r.head?.any Char.isDigit = false) :
    withoutGroups (latin (separated (separatorOf run) run) ++ r) = withoutGroups (latin run ++ r) := by
  obtain ⟨head, triples, ⟨hhead, _⟩, ⟨hheads, htriples⟩, hthree, _, heq, hseparated⟩ := separated_groups hne hrun
  rw [hseparated, heq, List.append_assoc, List.append_assoc]
  exact withoutGroups_triples (separator_kinds run).1 (separator_kinds run).2 hr hthree htriples hhead hheads

theorem noGroup_separated (hne : run ≠ []) (hrun : ∀ c ∈ run, isAnyDigit c = true) (r : List Char) :
    noGroup (latin (separated (separatorOf run) run) ++ r) = true := by
  obtain ⟨head, triples, ⟨hhead, _⟩, ⟨hheads, _⟩, _, _, _, hseparated⟩ := separated_groups hne hrun
  rw [hseparated, List.append_assoc]
  exact noGroup_digits hhead hheads _

/-- The characters before a run are the end of a group neither with the run nor with its first group. -/
theorem groupFollows_separated (hrun : ∀ c ∈ run, isAnyDigit c = true) (hlong : 4 ≤ run.length) {r s v : List Char}
    (hr : r.head?.any Char.isDigit = false) (hs : s.head?.any Char.isDigit = false)
    (hmeet : (∀ c ∈ v, c.isDigit = true) → v.length ≤ 2 → ¬3 ∣ v.length + run.length) :
    groupFollows (v ++ (latin (separated (separatorOf run) run) ++ r)) = groupFollows (v ++ (latin run ++ s)) := by
  have hne : run ≠ [] := List.ne_nil_of_length_pos (by omega)
  obtain ⟨head, triples, ⟨hhead, hshort⟩, ⟨hheads, _⟩, _, hlength, _, hseparated⟩ := separated_groups hne hrun
  by_cases hv : ∀ c ∈ v, c.isDigit = true
  · -- the first group of the run would be the end of a group that begins before it
    have hfirst : ¬(v ++ head).length = 3 := by
      intro h
      have hpos : 0 < head.length := List.length_pos_of_ne_nil hhead
      rw [List.length_append] at h
      exact hmeet hv (by omega) (by omega)
    have hwhole : ¬(v ++ latin run).length = 3 := by
      rw [List.length_append, latin, List.length_map]
      omega
    have hdigits : ∀ ds : List Char, (∀ c ∈ ds, c.isDigit = true) → ∀ c ∈ v ++ ds, c.isDigit = true :=
      fun ds hds c hc => (List.mem_append.mp hc).elim (hv c) (hds c)
    have hshown : v ++ (latin (separated (separatorOf run) run) ++ r) =
        v ++ head ++ (triples.flatMap (separatorOf run :: ·) ++ r) := by
      rw [hseparated]
      simp
    rw [hshown, ← List.append_assoc v (latin run) s, groupFollows_digits (hdigits head hheads) (triples_stop hr),
      groupFollows_digits (hdigits (latin run) (isDigit_latin hrun)) hs, decide_eq_false hfirst,
      decide_eq_false hwhole]
  · push Not at hv
    obtain ⟨c, hmem, hc⟩ := hv
    obtain ⟨v₁, v₂, rfl⟩ := List.append_of_mem hmem
    rw [List.append_assoc, List.append_assoc, List.cons_append, List.cons_append]
    exact groupFollows_stops (Bool.eq_false_of_not_eq_true hc) _ _

end Run

section Grouped

variable {n : Normalizer} (hn : Inert n)
include hn

/-- What comes first behind a run is the same when the runs behind it are grouped. -/
theorem behind_head {l : List (List Char)} (hl : Segments l) (gap : List Char) (previous : Option Char) :
    (normalizedBehind n (gap ++ regrouped previous l)).head?.any Char.isDigit =
      (normalizedBehind n (gap ++ l.flatten)).head?.any Char.isDigit := by
  induction hl generalizing gap previous with
  | nil => rfl
  | @other c rest _ _ ih =>
      rw [regrouped, if_neg (not_grouped_short (by simp)), List.flatten_cons, ← List.append_assoc,
        ← List.append_assoc]
      exact ih (gap ++ [c]) [c].getLast?
  | @run ds rest hne hds _ _ ih =>
      rw [regrouped, List.flatten_cons]
      by_cases hgroup : Grouped previous ds rest.flatten
      · obtain ⟨hshown, hinert⟩ := inert_separated hne hds
        obtain ⟨d, ds, rfl⟩ := List.exists_cons_of_ne_nil hne
        rw [if_pos hgroup, normalizedBehind_gap hn hshown hinert,
          normalizedBehind_gap hn hne fun c hc => inert_digit (hds c hc), List.head?_append, List.head?_append]
        congr 2
        rw [List.head?_append, List.head?_append]
        unfold latin
        rw [List.head?_map, List.head?_map, separated_head]
        rfl
      · rw [if_neg hgroup, ← List.append_assoc, ← List.append_assoc]
        exact ih (gap ++ ds) ds.getLast?

/-- **Leaving groups out of the grouped text** gives what leaving them out of the text gives.  The induction is on
the segments of the text; `front` is what was passed up to the last run that was grouped, `gap` what was passed
since, and `shown` tells how the text from there on is normalized. -/
theorem withoutGroups_regrouped {text : List Char} (hmeet : NoMeeting n text) {l : List (List Char)}
    (hl : Segments l) (front gap : List Char) (htext : text = front ++ (gap ++ l.flatten))
    (hbefore : (front ++ gap).getLast?.any isAnyDigit = true → l.flatten.head?.any isAnyDigit = false)
    (shown shownBefore : List Char → List Char)
    (hshown : ∀ a run b, run ≠ [] → (∀ c ∈ run, isInert c = true) →
      shown (a ++ (run ++ b)) = shownBefore a ++ (latin run ++ normalizedBehind n b))
    (hsuffix : ∀ a, shownBefore a <:+ normalizedBefore n (front ++ a)) :
    withoutGroups (shown (gap ++ regrouped (front ++ gap).getLast? l)) =
      withoutGroups (shown (gap ++ l.flatten)) := by
  induction hl generalizing front gap shown shownBefore with
  | nil => rfl
  | @other c rest hc hrest ih =>
      have hlast : (front ++ (gap ++ [c])).getLast? = some c := by rw [← List.append_assoc, List.getLast?_concat]
      have hstep := ih front (gap ++ [c]) (by rw [htext, List.flatten_cons, List.append_assoc])
        (fun h => by
          rw [hlast] at h
          rw [show isAnyDigit c = true from h] at hc
          cases hc) shown shownBefore hshown hsuffix
      rw [hlast, List.append_assoc, List.append_assoc] at hstep
      rw [regrouped, if_neg (not_grouped_short (by simp)), List.flatten_cons]
      exact hstep
  | @run ds rest hne hds hend hrest ih =>
      have hlast : (front ++ (gap ++ ds)).getLast? = ds.getLast? := by
        rw [← List.append_assoc, getLast?_append_run hne]
      rw [regrouped, List.flatten_cons]
      by_cases hgroup : Grouped (front ++ gap).getLast? ds rest.flatten
      · have hprevious : (front ++ gap).getLast?.any isAnyDigit = false := by
          obtain ⟨d, ds', hcons⟩ := List.exists_cons_of_ne_nil hne
          cases hp : (front ++ gap).getLast?.any isAnyDigit with
          | false => rfl
          | true =>
              have hhead : isAnyDigit d = false := by simpa [hcons] using hbefore hp
              rw [hds d (by simp [hcons])] at hhead
              cases hhead
        obtain ⟨hbehind, hfirst⟩ := hmeet (front ++ gap) ds rest.flatten
          ⟨by rw [htext, List.flatten_cons, List.append_assoc], hprevious, hend, hgroup⟩
        obtain ⟨hsepne, hsepinert⟩ := inert_separated hne hds
        have hrun : ∀ c ∈ ds, isInert c = true := fun c hc => inert_digit (hds c hc)
        have hbehind' : (normalizedBehind n (regrouped ds.getLast? rest)).head?.any Char.isDigit = false :=
          (behind_head hn hrest [] ds.getLast?).trans hbehind
        have hrest' : withoutGroups (latin ds ++ normalizedBehind n (regrouped ds.getLast? rest)) =
            withoutGroups (latin ds ++ normalizedBehind n rest.flatten) := by
          have h := ih (front ++ (gap ++ ds)) [] (by rw [htext, List.flatten_cons]; simp) (fun _ => hend)
            (fun t => latin ds ++ normalizedBehind n t) (fun t => latin ds ++ normalizedBetween n t)
            (fun a run b hne' hrun' => by rw [normalizedBehind_gap hn hne' hrun', List.append_assoc])
            (fun a => by
              have hsplit : front ++ (gap ++ ds) ++ a = (front ++ gap) ++ (ds ++ a) := by simp
              rw [hsplit, normalizedBefore_run hn hne hrun]
              exact List.suffix_append _ _)
          rw [List.append_nil, hlast] at h
          exact h
        rw [if_pos hgroup, hshown gap _ _ hsepne hsepinert, hshown gap _ _ hne hrun]
        have hfinal := (withoutGroups_separated hne hds hbehind').trans hrest'
        refine withoutGroups_prefix ?_ ?_ hfinal fun u d s v hfront hd hs => ?_
        · exact noGroup_separated hne hds _
        · exact noGroup_digits (fun h => hne (List.map_eq_nil_iff.mp h)) (isDigit_latin hds) _
        · obtain ⟨w, hw⟩ := hsuffix gap
          refine groupFollows_separated hds hgroup.1.1 hbehind' hbehind fun hv hshort => ?_
          exact hfirst (w ++ u) d s v (by rw [← hw, hfront, List.append_assoc]) hd hs hv hshort
      · have hstep := ih front (gap ++ ds) (by rw [htext, List.flatten_cons, List.append_assoc])
          (fun _ => hend) shown shownBefore hshown hsuffix
        rw [hlast, List.append_assoc, List.append_assoc] at hstep
        rw [if_neg hgroup]
        exact hstep

theorem withoutGroups_grouped {text : List Char} (hmeet : NoMeeting n text) :
    withoutGroups (normalizePersianText n (groupDigits text)) = withoutGroups (normalizePersianText n text) := by
  have htext : text = [] ++ ([] ++ (segments text).flatten) := (flatten_segments text).symm
  have h := withoutGroups_regrouped hn hmeet (segments_segments text) [] [] htext
    (fun h => absurd h Bool.false_ne_true) (normalizePersianText n) (normalizedBefore n)
    (fun a run b hne hrun => normalize_run hn hne hrun a b) fun a => List.suffix_refl _
  rw [List.nil_append, List.nil_append, flatten_segments] at h
  rw [groupDigits_eq]
  exact h

/-- **A price is read as before** where no run meets what is around it. -/
theorem parsePriceToman_grouped {text : List Char} (hmeet : NoMeeting n text) :
    parsePriceToman n (groupDigits text) = parsePriceToman n text := by
  unfold parsePriceToman
  by_cases hnil : text = []
  · rw [if_pos hnil, if_pos (groupDigits_nil.mpr hnil)]
  · rw [if_neg hnil, if_neg fun h => hnil (groupDigits_nil.mp h), withoutGroups_grouped hn hmeet]

end Grouped

/-! ### All readers -/

/-- All four readers read the grouped text as they read the text. -/
def ReadsAlike (n : Normalizer) (text : List Char) : Prop :=
  parseCargoPrice (groupDigits text) = parseCargoPrice text ∧
    parsePriceToman n (groupDigits text) = parsePriceToman n text ∧
    readAmount (groupDigits text) = readAmount text ∧
    ∀ unit, readWeight (groupDigits text) unit = readWeight text unit

/-- The places of a text where a maximal run could begin. -/
def places (text : List Char) : List (List Char × List Char × List Char) :=
  (List.range (text.length + 1)).map fun k =>
    (text.take k, (text.drop k).takeWhile isAnyDigit, (text.drop k).dropWhile isAnyDigit)

theorem mem_places {text before run after : List Char} (h : GroupedAt text before run after) :
    (before, run, after) ∈ places text := by
  have hrun : ∀ c ∈ run, isAnyDigit c = true := List.all_eq_true.mp h.grouped.1.2
  have hdrop : text.drop before.length = run ++ after := by rw [h.split, List.drop_left]
  refine List.mem_map.mpr ⟨before.length, ?_, ?_⟩
  · rw [List.mem_range, h.split, List.length_append]
    omega
  · have htake := takeWhile_run hrun h.last
    have hafter : (run ++ after).dropWhile isAnyDigit = after := by
      have hsplit := List.takeWhile_append_dropWhile (p := isAnyDigit) (l := run ++ after)
      rw [htake] at hsplit
      exact List.append_cancel_left hsplit
    rw [hdrop, htake, hafter, h.split, List.take_left]

theorem inert_plain : Inert plainNormalizer where
  nfkc_nil := rfl
  nfkc_split _ _ _ _ := rfl
  lowerCase_nil := rfl
  lowerCase_split _ _ _ _ := rfl

def fareText : List Char := "کرایه 1500000 تومان".toList

/-- The only run of the text. -/
theorem grouped_fareText {before run after : List Char} (h : GroupedAt fareText before run after) :
    before = "کرایه ".toList ∧ run = "1500000".toList ∧ after = " تومان".toList := by
  have hone : (places fareText).filter (fun place => !place.1.getLast?.any isAnyDigit &&
      decide (Grouped place.1.getLast? place.2.1 place.2.2)) =
      [("کرایه ".toList, "1500000".toList, " تومان".toList)] := by decide
  have hmem : (before, run, after) ∈ (places fareText).filter (fun place => !place.1.getLast?.any isAnyDigit &&
      decide (Grouped place.1.getLast? place.2.1 place.2.2)) := by
    refine List.mem_filter.mpr ⟨mem_places h, ?_⟩
    rw [h.first, decide_eq_true h.grouped]
    rfl
  rw [hone, List.mem_singleton, Prod.mk.injEq, Prod.mk.injEq] at hmem
  exact hmem

end TransportBackend.GroupedPrices
