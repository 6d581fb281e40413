import Mathlib.Data.List.Basic
import Mathlib.Logic.Function.Basic

/-!
# Words joined by a separator

* `Instantaneous.flatMap_injective`: a code none of whose words begins another reads back;
* `escape_injective`: replacing first the escape symbol and then the separator is one to one;
* `not_mem_escape`: what is escaped holds no separator;
* `name_unique`, `joined_tail`, `parts_unique`: a name and parts joined by the separator determine the
  name when no name with a separator after it begins another, and the parts when they hold no
  separator.
-/

namespace TransportBackend.EscapedKeys

variable {α κ : Type*} {sep esc : α} {u v : List α}

/-! ### Codes -/

/-- A code whose words are not empty, none of which begins another. -/
structure Instantaneous (code : α → List α) : Prop where
  nonempty : ∀ a, code a ≠ []
  start : ∀ a b, code a <+: code b → a = b

theorem Instantaneous.flatMap_injective {code : α → List α} (hcode : Instantaneous code) :
    Function.Injective fun s : List α => s.flatMap code := by
  intro s t h
  induction s generalizing t with
  | nil =>
      cases t with
      | nil => rfl
      | cons b t =>
          have hempty : code b ++ t.flatMap code = [] := h.symm
          exact absurd (List.append_eq_nil_iff.mp hempty).1 (hcode.nonempty b)
  | cons a s ih =>
      cases t with
      | nil =>
          have hempty : code a ++ s.flatMap code = [] := h
          exact absurd (List.append_eq_nil_iff.mp hempty).1 (hcode.nonempty a)
      | cons b t =>
          have hwords : code a ++ s.flatMap code = code b ++ t.flatMap code := h
          -- Both words begin the same text, so one of them begins the other.
          have hab : a = b := by
            rcases List.prefix_or_prefix_of_prefix (List.prefix_append (code a) _)
              (hwords ▸ List.prefix_append (code b) _) with hstart | hstart
            · exact hcode.start a b hstart
            · exact (hcode.start b a hstart).symm
          subst hab
          rw [ih (List.append_cancel_left hwords)]

section Escape

variable [DecidableEq α]

/-- Every occurrence of a symbol replaced by a word. -/
def replaceAll (c : α) (w : List α) (s : List α) : List α :=
  s.flatMap fun x => if x = c then w else [x]

/-- The escape symbol replaced by a word, and then the separator by another. -/
def escape (esc sep : α) (u v : List α) (s : List α) : List α := replaceAll sep v (replaceAll esc u s)

/-- What the two replacements make of one symbol. -/
def escapeCode (esc sep : α) (u v : List α) (x : α) : List α :=
  if x = esc then u else if x = sep then v else [x]

theorem replaceAll_append (c : α) (w s t : List α) :
    replaceAll c w (s ++ t) = replaceAll c w s ++ replaceAll c w t := List.flatMap_append

theorem replaceAll_of_notMem {c : α} {w s : List α} (h : c ∉ s) : replaceAll c w s = s := by
  induction s with
  | nil => rfl
  | cons x s ih =>
      have hx : x ≠ c := fun hxc => h (hxc ▸ List.mem_cons_self)
      have hs : replaceAll c w s = s := ih fun hmem => h (List.mem_cons_of_mem x hmem)
      show (if x = c then w else [x]) ++ replaceAll c w s = x :: s
      rw [if_neg hx, hs]
      rfl

/-- **Two passes are one**, since the first pass writes no separator. -/
theorem escape_eq_flatMap (hu : sep ∉ u) (s : List α) :
    escape esc sep u v s = s.flatMap (escapeCode esc sep u v) := by
  induction s with
  | nil => rfl
  | cons x s ih =>
      show replaceAll sep v ((if x = esc then u else [x]) ++ replaceAll esc u s) =
        escapeCode esc sep u v x ++ s.flatMap (escapeCode esc sep u v)
      rw [replaceAll_append, ← ih, escape, escapeCode]
      split
      · rw [replaceAll_of_notMem hu]
      · show (if x = sep then v else [x]) ++ [] ++ _ = _
        rw [List.append_nil]

/-- Two words that begin with the escape symbol, neither of which begins the other, make with the
other symbols a code that reads back. -/
theorem escapeCode_instantaneous (hu : u.head? = some esc) (hv : v.head? = some esc)
    (huv : ¬ u <+: v) (hvu : ¬ v <+: u) : Instantaneous (escapeCode esc sep u v) := by
  obtain ⟨u', rfl⟩ : ∃ u', u = esc :: u' := List.head?_eq_some_iff.mp hu
  obtain ⟨v', rfl⟩ : ∃ v', v = esc :: v' := List.head?_eq_some_iff.mp hv
  constructor
  · intro a
    unfold escapeCode
    split_ifs <;> exact List.cons_ne_nil _ _
  · intro a b h
    unfold escapeCode at h
    split_ifs at h with ha hb hb' ha' hb hb' hb hb'
    · rw [ha, hb]
    · exact absurd h huv
    · exact absurd (List.cons_prefix_cons.mp h).1.symm hb
    · exact absurd h hvu
    · rw [ha', hb']
    · exact absurd (List.cons_prefix_cons.mp h).1.symm hb
    · exact absurd (List.cons_prefix_cons.mp h).1 ha
    · exact absurd (List.cons_prefix_cons.mp h).1 ha
    · exact (List.cons_prefix_cons.mp h).1

theorem escape_injective (hsep : sep ∉ u) (hu : u.head? = some esc) (hv : v.head? = some esc)
    (huv : ¬ u <+: v) (hvu : ¬ v <+: u) : Function.Injective (escape esc sep u v) := by
  rw [show escape esc sep u v = fun s => s.flatMap (escapeCode esc sep u v) from
    funext (escape_eq_flatMap hsep)]
  exact (escapeCode_instantaneous hu hv huv hvu).flatMap_injective

theorem not_mem_escape (hv : sep ∉ v) (s : List α) : sep ∉ escape esc sep u v s := by
  intro h
  obtain ⟨x, _, hx⟩ := List.mem_flatMap.mp h
  split at hx
  · exact hv hx
  · rename_i hne
    exact hne (List.mem_singleton.mp hx).symm

end Escape

/-! ### Names and parts -/

/-- The parts in a row with the separator between them. -/
abbrev joined (sep : α) (parts : List (List α)) : List α := [sep].intercalate parts

/-- With a separator at the end, a joined text begins with its first part and a separator. -/
theorem name_prefix (sep : α) (n : List α) (ps : List (List α)) :
    n ++ [sep] <+: joined sep (n :: ps) ++ [sep] := by
  cases ps with
  | nil =>
      show n ++ [sep] <+: [sep].intercalate [n] ++ [sep]
      exact List.intercalate_singleton ▸ List.prefix_refl _
  | cons p ps =>
      rw [joined, List.intercalate_cons_cons, List.append_assoc]
      exact List.prefix_append _ _

/-- **The name is determined**, when no name with a separator after it begins another. -/
theorem name_unique {name : κ → List α}
    (hfree : ∀ j k, name j ++ [sep] <+: name k ++ [sep] → j = k) {j k : κ} {ps qs : List (List α)}
    (h : joined sep (name j :: ps) = joined sep (name k :: qs)) : j = k := by
  have hj := name_prefix sep (name j) ps
  have hk := name_prefix sep (name k) qs
  rw [← h] at hk
  rcases List.prefix_or_prefix_of_prefix hj hk with hstart | hstart
  · exact hfree j k hstart
  · exact (hfree k j hstart).symm

/-- What stands after a shared first part. -/
theorem joined_tail {n : List α} {ps qs : List (List α)} (hlen : ps.length = qs.length)
    (h : joined sep (n :: ps) = joined sep (n :: qs)) : joined sep ps = joined sep qs := by
  cases ps with
  | nil => rw [List.length_eq_zero_iff.mp hlen.symm]
  | cons p ps =>
      cases qs with
      | nil => exact absurd hlen (Nat.succ_ne_zero _)
      | cons q qs =>
          rw [joined, joined, List.intercalate_cons_cons, List.intercalate_cons_cons] at h
          exact List.append_cancel_left h

/-- **The parts are determined**, when none of them holds a separator. -/
theorem parts_unique [DecidableEq α] {ps qs : List (List α)} (hlen : ps.length = qs.length)
    (hps : ∀ p ∈ ps, sep ∉ p) (hqs : ∀ q ∈ qs, sep ∉ q) (h : joined sep ps = joined sep qs) :
    ps = qs := by
  cases ps with
  | nil => rw [List.length_eq_zero_iff.mp hlen.symm]
  | cons p ps =>
      cases qs with
      | nil => exact absurd hlen (Nat.succ_ne_zero _)
      | cons q qs =>
          have hsplit := congrArg (List.splitOn sep) h
          rwa [joined, joined, List.splitOn_intercalate sep hps (List.cons_ne_nil _ _),
            List.splitOn_intercalate sep hqs (List.cons_ne_nil _ _)] at hsplit

end TransportBackend.EscapedKeys
