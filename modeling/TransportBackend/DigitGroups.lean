import TransportBackend.PriceForms
import Mathlib.Data.List.SplitBy

/-!
# Thousands separators in free text

`groupDigits` of `digitGroups.ts`.  The regular expression finds bare runs of digits by looking behind,
taking as many digits as it can, and looking ahead; where it looks ahead in vain it tries fewer digits.

* `matchLength`, `replaceRuns`: the matches of the expression, and the text with each of them replaced;
* `regrouped`: the maximal runs of a text, each with its separators if it gets any;
* `groupDigits_eq`: **the expression finds exactly the maximal runs that are to be grouped**;
* `groupDigits_spec`: what is inserted where, and that a second time changes nothing.
-/

namespace TransportBackend.DigitGroups

open TransportBackend.PriceForms
open TransportBackend.PriceTexts

/-! ### The regular expression -/

/-- What no run may stand behind: `[DIGIT.,٬٫/:+]`. -/
def bars (c : Char) : Bool := isAnyDigit c || c ∈ ['.', ',', '٬', '٫', '/', ':', '+']

/-- `[DIGIT]|[/:][DIGIT]` at the start of what follows. -/
def goesOn : List Char → Bool
  | [] => false
  | c :: t => isAnyDigit c || ((c == '/' || c == ':') && t.head?.any isAnyDigit)

/-- The number of digits that match at a place: the largest of four or more that nothing goes on after. -/
def matchLength (previous : Option Char) (t : List Char) : Option ℕ :=
  if previous.any bars then none
  else
    let digits := (t.takeWhile isAnyDigit).length
    (List.range' 4 (digits - 3)).reverse.find? fun k => !goesOn (t.drop k)

/-- `text.replace(RUN, f)`: the first argument counts the digits of a match that are still to be passed. -/
def replaceRuns (f : List Char → List Char) : ℕ → Option Char → List Char → List Char
  | _, _, [] => []
  | passed + 1, _, c :: t => replaceRuns f passed (some c) t
  | 0, previous, c :: t =>
      match matchLength previous (c :: t) with
      | some k => f ((c :: t).take k) ++ replaceRuns f (k - 1) (some c) t
      | none => c :: replaceRuns f 0 (some c) t

/-- `/^[0۰٠]/`. -/
def startsWithZero (run : List Char) : Bool := run.head?.any (· ∈ ['0', '۰', '٠'])

def separatorOf (run : List Char) : Char := if run.any Char.isDigit then ',' else '٬'

/-- `replace(/(?!^)(?=(?:.{3})+$)/gu, separator)`. -/
def separated (separator : Char) : List Char → List Char
  | [] => []
  | c :: t => if t ≠ [] ∧ 3 ∣ t.length then c :: separator :: separated separator t else c :: separated separator t

/-- What a run is replaced by. -/
def groupRun (run : List Char) : List Char :=
  if startsWithZero run then run else separated (separatorOf run) run

def groupDigits (text : List Char) : List Char := replaceRuns groupRun 0 none text

/-! ### Maximal runs -/

def sameRun (a b : Char) : Bool := isAnyDigit a && isAnyDigit b

/-- The maximal runs of digits, and the other characters one by one. -/
def segments (text : List Char) : List (List Char) := text.splitBy sameRun

/-- A text in its segments. -/
inductive Segments : List (List Char) → Prop
  | nil : Segments []
  | other {c : Char} {rest : List (List Char)} (hc : isAnyDigit c = false) (hrest : Segments rest) :
      Segments ([c] :: rest)
  | run {ds : List Char} {rest : List (List Char)} (hne : ds ≠ []) (hds : ∀ c ∈ ds, isAnyDigit c = true)
      (hend : rest.flatten.head?.any isAnyDigit = false) (hrest : Segments rest) : Segments (ds :: rest)

theorem digits_of_chain {ds : List Char} {c d : Char} (h : (c :: d :: ds).IsChain fun x y => sameRun x y = true) :
    ∀ a ∈ c :: d :: ds, isAnyDigit a = true := by
  induction ds generalizing c d with
  | nil =>
      obtain ⟨hc, hd⟩ := Bool.and_eq_true_iff.mp (List.isChain_cons_cons.mp h).1
      intro a ha
      simp only [List.mem_cons, List.not_mem_nil, or_false] at ha
      rcases ha with rfl | rfl
      · exact hc
      · exact hd
  | cons e ds ih =>
      obtain ⟨hstep, hrest⟩ := List.isChain_cons_cons.mp h
      intro a ha
      rcases List.mem_cons.mp ha with rfl | ha
      · exact (Bool.and_eq_true_iff.mp hstep).1
      · exact ih hrest a ha

theorem segments_of_chain {l : List (List Char)} (hne : [] ∉ l)
    (hchain : ∀ m ∈ l, m.IsChain fun x y => sameRun x y = true)
    (hends : l.IsChain fun a b => ∃ ha hb, sameRun (a.getLast ha) (b.head hb) = false) : Segments l := by
  induction l with
  | nil => exact .nil
  | cons m l ih =>
      have hrest : Segments l := ih (fun h => hne (List.mem_cons_of_mem m h))
        (fun a ha => hchain a (List.mem_cons_of_mem m ha)) hends.tail
      have hm : m ≠ [] := fun h => hne (h ▸ List.mem_cons_self)
      have hnext : isAnyDigit (m.getLast hm) = true → l.flatten.head?.any isAnyDigit = false := by
        intro hlast
        rcases l with _ | ⟨b, l⟩
        · rfl
        · obtain ⟨⟨_, hb, hfalse⟩, _⟩ := List.isChain_cons_cons.mp hends
          obtain ⟨c, b', rfl⟩ := List.exists_cons_of_ne_nil hb
          show isAnyDigit c = false
          simpa [sameRun, hlast] using hfalse
      rcases m with _ | ⟨c, _ | ⟨d, m⟩⟩
      · exact absurd rfl hm
      · cases hc : isAnyDigit c with
        | false => exact .other hc hrest
        | true =>
            refine .run (List.cons_ne_nil c []) (fun a ha => ?_) (hnext hc) hrest
            rw [List.mem_singleton.mp ha]
            exact hc
      · have hall := digits_of_chain (hchain _ List.mem_cons_self)
        exact .run hm hall (hnext (hall _ (List.getLast_mem hm))) hrest

theorem segments_segments (text : List Char) : Segments (segments text) :=
  segments_of_chain (List.nil_notMem_splitBy sameRun text) (fun _ hm => List.isChain_of_mem_splitBy hm)
    (List.isChain_getLast_head_splitBy sameRun text)

theorem flatten_segments (text : List Char) : (segments text).flatten = text := List.flatten_splitBy sameRun text

/-! ### Which runs are grouped -/

/-- What stands right before a run that is left alone. -/
def marks : List Char := ['.', ',', '٬', '٫', '/', ':', '+']

/-- A slash or a colon and a digit. -/
def datePart : List Char → Bool
  | c :: d :: _ => (c == '/' || c == ':') && isAnyDigit d
  | _ => false

/-- A maximal run that gets separators, with the character before it and the text behind it. -/
def Grouped (previous : Option Char) (run after : List Char) : Prop :=
  (4 ≤ run.length ∧ run.all isAnyDigit = true) ∧ startsWithZero run = false ∧
    previous.any (· ∈ marks) = false ∧ datePart after = false

instance (previous : Option Char) (run after : List Char) : Decidable (Grouped previous run after) :=
  inferInstanceAs (Decidable (_ ∧ _))

/-- The segments of a text with their separators. -/
def regrouped : Option Char → List (List Char) → List Char
  | _, [] => []
  | previous, run :: rest =>
      (if Grouped previous run rest.flatten then separated (separatorOf run) run else run) ++
        regrouped run.getLast? rest

/-! ### Matches -/

theorem takeWhile_run {ds r : List Char} (hds : ∀ c ∈ ds, isAnyDigit c = true)
    (hr : r.head?.any isAnyDigit = false) : (ds ++ r).takeWhile isAnyDigit = ds := by
  induction ds with
  | nil =>
      rcases r with _ | ⟨c, r⟩
      · rfl
      · exact List.takeWhile_cons_of_neg (by rw [show isAnyDigit c = false from hr]; exact Bool.false_ne_true)
  | cons d ds ih =>
      rw [List.cons_append, List.takeWhile_cons_of_pos (hds d List.mem_cons_self),
        ih fun c hc => hds c (List.mem_cons_of_mem d hc)]

theorem goesOn_end {r : List Char} (hr : r.head?.any isAnyDigit = false) : goesOn r = datePart r := by
  rcases r with _ | ⟨c, _ | ⟨d, r⟩⟩
  · rfl
  · simp [goesOn, datePart, show isAnyDigit c = false from hr]
  · simp [goesOn, datePart, show isAnyDigit c = false from hr]

theorem goesOn_digit {c : Char} (hc : isAnyDigit c = true) (t : List Char) : goesOn (c :: t) = true := by
  simp [goesOn, hc]

/-- **All of a maximal run matches, or nothing**: fewer digits would be followed by a digit. -/
theorem matchLength_run {previous : Option Char} (hprevious : previous.any bars = false) {ds r : List Char}
    (hds : ∀ c ∈ ds, isAnyDigit c = true) (hr : r.head?.any isAnyDigit = false) :
    matchLength previous (ds ++ r) = if 4 ≤ ds.length ∧ datePart r = false then some ds.length else none := by
  have hdrop : ∀ k, k < ds.length → goesOn ((ds ++ r).drop k) = true := by
    intro k hk
    rw [List.drop_append_of_le_length hk.le, List.drop_eq_getElem_cons hk]
    exact goesOn_digit (hds _ (List.getElem_mem hk)) _
  unfold matchLength
  rw [hprevious, takeWhile_run hds hr, if_neg Bool.false_ne_true]
  dsimp only
  by_cases hlong : 4 ≤ ds.length
  · have hrange : List.range' 4 (ds.length - 3) = List.range' 4 (ds.length - 4) ++ [ds.length] := by
      have hsucc : ds.length - 3 = ds.length - 4 + 1 := by omega
      rw [hsucc, List.range'_1_concat]
      congr 2
      omega
    have hend : (ds ++ r).drop ds.length = r := List.drop_left
    have hfewer : (List.range' 4 (ds.length - 4)).reverse.find? (fun k => !goesOn ((ds ++ r).drop k)) = none := by
      refine List.find?_eq_none.mpr fun k hk => ?_
      have hk := List.mem_range'_1.mp (List.mem_reverse.mp hk)
      rw [hdrop k (by omega)]
      exact Bool.false_ne_true
    rw [hrange, List.reverse_append, List.reverse_singleton, List.singleton_append, List.find?_cons, hend,
      goesOn_end hr]
    cases hdate : datePart r with
    | false =>
        rw [if_pos ⟨hlong, rfl⟩]
        rfl
    | true =>
        rw [if_neg (by simp)]
        exact hfewer
  · have hnone : ds.length - 3 = 0 := by omega
    rw [hnone, if_neg fun h => hlong h.1]
    rfl

theorem matchLength_barred {previous : Option Char} (h : previous.any bars = true) (t : List Char) :
    matchLength previous t = none := by
  unfold matchLength
  rw [h]
  rfl

/-! ### One segment after the other -/

section Scan

variable (f : List Char → List Char)

theorem replaceRuns_miss {previous : Option Char} {c : Char} {t : List Char}
    (h : matchLength previous (c :: t) = none) :
    replaceRuns f 0 previous (c :: t) = c :: replaceRuns f 0 (some c) t := by
  rw [replaceRuns, h]

/-- The digits of a match are passed. -/
theorem replaceRuns_passed (ds r : List Char) (c : Char) :
    replaceRuns f ds.length (some c) (ds ++ r) = replaceRuns f 0 ((c :: ds).getLast?) r := by
  induction ds generalizing c with
  | nil =>
      rw [List.nil_append]
      cases r <;> rfl
  | cons d ds ih =>
      show replaceRuns f ds.length (some d) (ds ++ r) = _
      rw [ih, List.getLast?_cons_cons]

/-- Behind a digit no match begins. -/
theorem replaceRuns_inside {ds : List Char} (hds : ∀ c ∈ ds, isAnyDigit c = true) (r : List Char) {c : Char}
    (hc : isAnyDigit c = true) :
    replaceRuns f 0 (some c) (ds ++ r) = ds ++ replaceRuns f 0 ((c :: ds).getLast?) r := by
  induction ds generalizing c with
  | nil => rfl
  | cons d ds ih =>
      have hbar : (some c).any bars = true := by simp [bars, hc]
      rw [List.cons_append, replaceRuns_miss f (matchLength_barred hbar _),
        ih (fun a ha => hds a (List.mem_cons_of_mem d ha)) (hds d List.mem_cons_self), List.getLast?_cons_cons]
      rfl

theorem replaceRuns_other {previous : Option Char} {c : Char} (hc : isAnyDigit c = false) (r : List Char) :
    replaceRuns f 0 previous (c :: r) = c :: replaceRuns f 0 (some c) r := by
  apply replaceRuns_miss
  unfold matchLength
  rw [List.takeWhile_cons_of_neg (by rw [hc]; exact Bool.false_ne_true)]
  split <;> rfl

theorem replaceRuns_run {previous : Option Char} (hprevious : previous.any isAnyDigit = false) {ds : List Char}
    (hne : ds ≠ []) (hds : ∀ c ∈ ds, isAnyDigit c = true) {r : List Char}
    (hr : r.head?.any isAnyDigit = false) :
    replaceRuns f 0 previous (ds ++ r) =
      (if 4 ≤ ds.length ∧ previous.any (· ∈ marks) = false ∧ datePart r = false then f ds else ds) ++
        replaceRuns f 0 ds.getLast? r := by
  obtain ⟨d, ds, rfl⟩ := List.exists_cons_of_ne_nil hne
  have htail : ∀ c ∈ ds, isAnyDigit c = true := fun c hc => hds c (List.mem_cons_of_mem d hc)
  have hbars : previous.any bars = previous.any (· ∈ marks) := by
    cases previous with
    | none => rfl
    | some c =>
        show bars c = decide (c ∈ marks)
        unfold bars
        rw [show isAnyDigit c = false from hprevious]
        rfl
  have hmiss : matchLength previous (d :: (ds ++ r)) = none →
      replaceRuns f 0 previous (d :: ds ++ r) = d :: ds ++ replaceRuns f 0 (d :: ds).getLast? r := by
    intro hnone
    rw [List.cons_append, replaceRuns_miss f hnone, replaceRuns_inside f htail r (hds d List.mem_cons_self)]
    rfl
  cases hmark : previous.any (· ∈ marks) with
  | true =>
      rw [if_neg (by simp)]
      exact hmiss (matchLength_barred (hbars.trans hmark) _)
  | false =>
      have hmatch : matchLength previous (d :: (ds ++ r)) =
          if 4 ≤ (d :: ds).length ∧ datePart r = false then some (d :: ds).length else none :=
        matchLength_run (hbars.trans hmark) hds hr
      by_cases hgroup : 4 ≤ (d :: ds).length ∧ datePart r = false
      · rw [if_pos hgroup] at hmatch
        rw [if_pos ⟨hgroup.1, rfl, hgroup.2⟩, List.cons_append, replaceRuns, hmatch]
        show f ((d :: ds ++ r).take (d :: ds).length) ++ replaceRuns f ds.length (some d) (ds ++ r) = _
        rw [List.take_left, replaceRuns_passed]
      · rw [if_neg hgroup] at hmatch
        rw [if_neg fun h => hgroup ⟨h.1, h.2.2⟩]
        exact hmiss hmatch

end Scan

/-- The text segment by segment. -/
theorem replaceRuns_segments {l : List (List Char)} (hl : Segments l) {previous : Option Char}
    (hprevious : previous.any isAnyDigit = true → l.flatten.head?.any isAnyDigit = false) :
    replaceRuns groupRun 0 previous l.flatten = regrouped previous l := by
  induction hl generalizing previous with
  | nil => rfl
  | @other c rest hc hrest ih =>
      have hnot : ¬Grouped previous [c] rest.flatten := by
        rintro ⟨⟨hlong, _⟩, _⟩
        simp at hlong
      have hnext : replaceRuns groupRun 0 (some c) rest.flatten = regrouped (some c) rest := ih fun h => by
        rw [show isAnyDigit c = true from h] at hc
        cases hc
      rw [List.flatten_cons]
      show replaceRuns groupRun 0 previous (c :: rest.flatten) = _
      rw [replaceRuns_other groupRun hc, hnext, regrouped, if_neg hnot]
      rfl
  | @run ds rest hne hds hend hrest ih =>
      have hbefore : previous.any isAnyDigit = false := by
        obtain ⟨d, ds', rfl⟩ := List.exists_cons_of_ne_nil hne
        cases hp : previous.any isAnyDigit with
        | false => rfl
        | true =>
            have hhead : isAnyDigit d = false := hprevious hp
            rw [hds d List.mem_cons_self] at hhead
            cases hhead
      rw [List.flatten_cons, replaceRuns_run groupRun hbefore hne hds hend, ih fun _ => hend, regrouped]
      congr 1
      have hall : ds.all isAnyDigit = true := List.all_eq_true.mpr hds
      by_cases hmatch : 4 ≤ ds.length ∧ previous.any (· ∈ marks) = false ∧ datePart rest.flatten = false
      · rw [if_pos hmatch]
        unfold groupRun
        cases hzero : startsWithZero ds with
        | true =>
            rw [if_pos rfl, if_neg fun h => Bool.noConfusion (hzero.symm.trans h.2.1)]
        | false =>
            rw [if_neg Bool.false_ne_true, if_pos ⟨⟨hmatch.1, hall⟩, hzero, hmatch.2⟩]
      · rw [if_neg hmatch, if_neg fun h => hmatch ⟨h.1.1, h.2.2⟩]

/-- **The expression finds exactly the maximal runs that are to be grouped.** -/
theorem groupDigits_eq (text : List Char) : groupDigits text = regrouped none (segments text) := by
  have h : replaceRuns groupRun 0 none (segments text).flatten = regrouped none (segments text) :=
    replaceRuns_segments (segments_segments text) fun h => absurd h Bool.false_ne_true
  rwa [flatten_segments] at h

/-! ### Thousands -/

/-- A separator before every third digit from the right, and none at the start. -/
def Thousands (separator : Char) (run shown : List Char) : Prop :=
  ∃ (head : List Char) (triples : List (List Char)), (head ≠ [] ∧ head.length ≤ 3) ∧ (∀ triple ∈ triples, triple.length = 3) ∧
    run = head ++ triples.flatten ∧ shown = head ++ triples.flatMap (separator :: ·)

theorem separated_thousands (separator : Char) {run : List Char} (hne : run ≠ []) :
    Thousands separator run (separated separator run) := by
  induction run with
  | nil => exact absurd rfl hne
  | cons c t ih =>
      by_cases ht : t = []
      · subst ht
        exact ⟨[c], [], ⟨List.cons_ne_nil c [], by simp⟩, by simp, rfl, rfl⟩
      obtain ⟨head, triples, ⟨hhead, hshort⟩, htriples, hrun, hshown⟩ := ih ht
      have hlength : t.length = head.length + 3 * triples.length := by
        have hflat : triples.flatten.length = 3 * triples.length := by
          rw [List.length_flatten, List.map_congr_left htriples, List.map_const', List.sum_replicate, smul_eq_mul,
            mul_comm]
        rw [hrun, List.length_append, hflat]
      have hpos : 0 < head.length := List.length_pos_of_ne_nil hhead
      unfold separated
      by_cases hthree : 3 ∣ t.length
      · -- the digit stands alone before a whole number of triples
        rw [if_pos ⟨ht, hthree⟩]
        have hfull : head.length = 3 := by omega
        refine ⟨[c], head :: triples, ⟨List.cons_ne_nil c [], by simp⟩, ?_, ?_, ?_⟩
        · intro triple h
          rcases List.mem_cons.mp h with rfl | h
          · exact hfull
          · exact htriples triple h
        · rw [hrun]
          rfl
        · rw [hshown]
          rfl
      · rw [if_neg fun h => hthree h.2]
        refine ⟨c :: head, triples, ⟨List.cons_ne_nil c head, ?_⟩, htriples, ?_, ?_⟩
        · rw [List.length_cons]
          omega
        · rw [hrun]
          rfl
        · rw [hshown]
          rfl

/-! ### A second time -/

theorem separatorOf_cases (run : List Char) : separatorOf run = ',' ∨ separatorOf run = '٬' := by
  unfold separatorOf
  split
  · exact .inl rfl
  · exact .inr rfl

theorem separatorOf_not_digit (run : List Char) : isAnyDigit (separatorOf run) = false := by
  rcases separatorOf_cases run with h | h <;> rw [h] <;> decide

theorem not_grouped_short {previous : Option Char} {run after : List Char} (h : run.length ≤ 3) :
    ¬Grouped previous run after := fun hgroup => by
  have hlong := hgroup.1.1
  omega

/-- The triples of a run and what follows them: nothing in them is grouped again. -/
theorem triples_settled {separator : Char} (hsep : isAnyDigit separator = false) {rest : List (List Char)}
    (hrest : Segments rest) (hend : rest.flatten.head?.any isAnyDigit = false) {triples : List (List Char)}
    (hlength : ∀ g ∈ triples, g.length = 3) (hdigits : ∀ g ∈ triples, ∀ c ∈ g, isAnyDigit c = true)
    {last : List Char} (hlast : regrouped (last ++ triples.flatten).getLast? rest = rest.flatten) :
    ∃ l, Segments l ∧ l.flatten = triples.flatMap (separator :: ·) ++ rest.flatten ∧
      l.flatten.head?.any isAnyDigit = false ∧ regrouped last.getLast? l = l.flatten := by
  induction triples generalizing last with
  | nil =>
      rw [List.flatten_nil, List.append_nil] at hlast
      exact ⟨rest, hrest, rfl, hend, hlast⟩
  | cons g triples ih =>
      have hg : g.length = 3 := hlength g List.mem_cons_self
      have hgne : g ≠ [] := List.ne_nil_of_length_pos (by omega)
      have hgdigits : ∀ c ∈ g, isAnyDigit c = true := hdigits g List.mem_cons_self
      have hnext : regrouped (g ++ triples.flatten).getLast? rest = rest.flatten := by
        have hsame : (last ++ (g :: triples).flatten).getLast? = (g ++ triples.flatten).getLast? := by
          rw [List.flatten_cons, List.getLast?_append]
          have hsome : ((g ++ triples.flatten).getLast?).isSome = true := by simp [hgne]
          rw [Option.or_of_isSome hsome]
        rwa [hsame] at hlast
      obtain ⟨l, hl, hflat, hhead, hregroup⟩ := ih (fun a ha => hlength a (List.mem_cons_of_mem g ha))
        (fun a ha => hdigits a (List.mem_cons_of_mem g ha)) hnext
      refine ⟨[separator] :: g :: l, .other hsep (.run hgne hgdigits hhead hl), ?_, hsep, ?_⟩
      · rw [List.flatten_cons, List.flatten_cons, hflat, List.flatMap_cons, List.append_assoc]
        rfl
      · rw [regrouped, if_neg (not_grouped_short (by simp)), regrouped, if_neg (not_grouped_short hg.le), hregroup,
          List.flatten_cons, List.flatten_cons]

theorem head_flatten_cons {ds : List Char} (hne : ds ≠ []) (t u : List Char) :
    (ds ++ t).head? = (ds ++ u).head? := by
  obtain ⟨d, ds, rfl⟩ := List.exists_cons_of_ne_nil hne
  rfl

theorem datePart_cons (c : Char) {t u : List Char} (h : t.head? = u.head?) :
    datePart (c :: t) = datePart (c :: u) := by
  rcases t with _ | ⟨d, t⟩ <;> rcases u with _ | ⟨e, u⟩
  · rfl
  · cases h
  · cases h
  · obtain rfl := Option.some.inj h
    rfl

theorem datePart_digit {c : Char} (hc : isAnyDigit c = true) (t : List Char) : datePart (c :: t) = false := by
  rcases t with _ | ⟨d, t⟩
  · rfl
  · have hne : c ≠ '/' ∧ c ≠ ':' := by
      refine ⟨?_, ?_⟩ <;> rintro rfl <;> revert hc <;> decide
    simp [datePart, hne.1, hne.2]

/-- What was grouped is in segments of its own, and none of them is to be grouped. -/
theorem regrouped_settled {l : List (List Char)} (hl : Segments l) (previous : Option Char) :
    ∃ l', Segments l' ∧ l'.flatten = regrouped previous l ∧ regrouped previous l' = l'.flatten ∧
      l'.flatten.head? = l.flatten.head? ∧ datePart l'.flatten = datePart l.flatten := by
  induction hl generalizing previous with
  | nil => exact ⟨[], .nil, rfl, rfl, rfl, rfl⟩
  | @other c rest hc hrest ih =>
      obtain ⟨rest', hrest', hflat, hsettled, hhead, _⟩ := ih (some c)
      have hshort : ∀ after, ¬Grouped previous [c] after := fun after => not_grouped_short (by simp)
      refine ⟨[c] :: rest', .other hc hrest', ?_, ?_, rfl, datePart_cons c hhead⟩
      · rw [regrouped, if_neg (hshort _), List.flatten_cons, hflat]
        rfl
      · rw [regrouped, if_neg (hshort _), List.flatten_cons]
        exact congrArg ([c] ++ ·) hsettled
  | @run ds rest hne hds hend hrest ih =>
      obtain ⟨rest', hrest', hflat, hsettled, hhead, hdate⟩ := ih ds.getLast?
      have hend' : rest'.flatten.head?.any isAnyDigit = false := by rw [hhead, hend]
      obtain ⟨d, ds', hcons⟩ := List.exists_cons_of_ne_nil hne
      have hd : isAnyDigit d = true := hds d (by rw [hcons]; exact List.mem_cons_self)
      by_cases hgroup : Grouped previous ds rest.flatten
      · obtain ⟨head, triples, ⟨hheadne, hshort⟩, hlength, hrun, hshown⟩ :=
          separated_thousands (separatorOf ds) hne
        have hmem : ∀ c ∈ head ++ triples.flatten, isAnyDigit c = true := hrun ▸ hds
        have hheads : ∀ c ∈ head, isAnyDigit c = true := fun c hc => hmem c (List.mem_append_left _ hc)
        have htriples : ∀ g ∈ triples, ∀ c ∈ g, isAnyDigit c = true := fun g hg c hc =>
          hmem c (List.mem_append_right _ (List.mem_flatten.mpr ⟨g, hg, hc⟩))
        rw [hrun] at hsettled
        obtain ⟨t, ht, htflat, hthead, htsettled⟩ :=
          triples_settled (separatorOf_not_digit ds) hrest' hend' hlength htriples hsettled
        obtain ⟨e, head', hheadcons⟩ := List.exists_cons_of_ne_nil hheadne
        have he : isAnyDigit e = true := hheads e (by rw [hheadcons]; exact List.mem_cons_self)
        have hwhole : (head :: t).flatten = separated (separatorOf ds) ds ++ rest'.flatten := by
          rw [List.flatten_cons, htflat, hshown, List.append_assoc]
        refine ⟨head :: t, .run hheadne hheads hthead ht, ?_, ?_, ?_, ?_⟩
        · rw [hwhole, regrouped, if_pos hgroup, hflat]
        · rw [regrouped, if_neg (not_grouped_short hshort), htsettled, List.flatten_cons]
        · rw [List.flatten_cons, List.flatten_cons, hrun, hheadcons]
          rfl
        · rw [List.flatten_cons, List.flatten_cons, hheadcons, hcons]
          exact (datePart_digit he _).trans (datePart_digit hd _).symm
      · have hstill : ¬Grouped previous ds rest'.flatten := fun h => hgroup ⟨h.1, h.2.1, h.2.2.1, hdate ▸ h.2.2.2⟩
        refine ⟨ds :: rest', .run hne hds hend' hrest', ?_, ?_, ?_, ?_⟩
        · rw [regrouped, if_neg hgroup, List.flatten_cons, hflat]
        · rw [regrouped, if_neg hstill, List.flatten_cons, hsettled]
        · rw [List.flatten_cons, List.flatten_cons]
          exact head_flatten_cons hne _ _
        · rw [List.flatten_cons, List.flatten_cons, hcons]
          exact (datePart_digit hd _).trans (datePart_digit hd _).symm

theorem groupDigits_groupDigits (text : List Char) : groupDigits (groupDigits text) = groupDigits text := by
  obtain ⟨l, hl, hflat, hsettled, _, _⟩ := regrouped_settled (segments_segments text) none
  have hrun : groupDigits l.flatten = regrouped none l :=
    replaceRuns_segments hl fun h => absurd h Bool.false_ne_true
  rw [groupDigits_eq text, ← hflat, hrun, hsettled]

/-- **What `groupDigits` does to a text**: in its maximal runs of digits, the ones that are to be grouped have a
separator before every third digit from the right, nothing else changes, and a second time changes nothing. -/
theorem groupDigits_spec (text : List Char) :
    (Segments (segments text) ∧ (segments text).flatten = text) ∧
      groupDigits text = regrouped none (segments text) ∧
      (∀ separator run, run ≠ [] → Thousands separator run (separated separator run)) ∧
      groupDigits (groupDigits text) = groupDigits text :=
  ⟨⟨segments_segments text, flatten_segments text⟩, groupDigits_eq text,
    fun separator _ hne => separated_thousands separator hne, groupDigits_groupDigits text⟩

end TransportBackend.DigitGroups
