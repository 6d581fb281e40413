import Mathlib.Data.List.Basic
import TransportBackend.EscapedKeys

/-!
# Texts that end by themselves

A printer delimits its values when a printed value followed by anything reads back in one way only.

* `Delimits.injective`, `Delimits.pair`, `Delimits.array`: printed values, pairs and lists of them;
* `quoted_delimits`: a quoted text with its escapes.
-/

namespace TransportBackend.JsonTexts

open TransportBackend.EscapedKeys

variable {α β γ : Type*}

/-- What follows a printed value is where it says it is. -/
def Delimits (print : α → List Char) : Prop :=
  ∀ a b s t, print a ++ s = print b ++ t → a = b ∧ s = t

theorem Delimits.injective {print : α → List Char} (h : Delimits print) :
    Function.Injective print := by
  intro a b hab
  exact (h a b [] [] (by rw [hab])).1

/-- The same printer on what an injection makes of the values. -/
theorem Delimits.comp {print : β → List Char} (h : Delimits print) {f : α → β}
    (hf : Function.Injective f) : Delimits fun a => print (f a) := by
  intro a b s t hab
  obtain ⟨hfab, hst⟩ := h (f a) (f b) s t hab
  exact ⟨hf hfab, hst⟩

/-- A fixed word before the value. -/
theorem Delimits.after {print : α → List Char} (h : Delimits print) (word : List Char) :
    Delimits fun a => word ++ print a := by
  intro a b s t hab
  simp only [List.append_assoc] at hab
  exact h a b s t (List.append_cancel_left hab)

/-- A fixed word after the value. -/
theorem Delimits.before {print : α → List Char} (h : Delimits print) (word : List Char) :
    Delimits fun a => print a ++ word := by
  intro a b s t hab
  simp only [List.append_assoc] at hab
  obtain ⟨rfl, hrest⟩ := h a b _ _ hab
  exact ⟨rfl, List.append_cancel_left hrest⟩

/-- One value after the other. -/
theorem Delimits.pair {print : α → List Char} {print' : β → List Char} (h : Delimits print)
    (h' : Delimits print') : Delimits fun p : α × β => print p.1 ++ print' p.2 := by
  intro p q s t hpq
  simp only [List.append_assoc] at hpq
  obtain ⟨hfst, hrest⟩ := h p.1 q.1 _ _ hpq
  obtain ⟨hsnd, hst⟩ := h' p.2 q.2 s t hrest
  exact ⟨Prod.ext hfst hsnd, hst⟩

/-! ### Lists -/

/-- Printed values with commas between them. -/
def elements (print : α → List Char) : List α → List Char
  | [] => []
  | [a] => print a
  | a :: b :: l => print a ++ ',' :: elements print (b :: l)

/-- A printed list. -/
def array (print : α → List Char) (l : List α) : List Char := '[' :: (elements print l ++ [']'])

theorem elements_ne_close {print : α → List Char} {c : Char} (hc : c ≠ ']')
    (hhead : ∀ a, ∃ r, print a = c :: r) (a : α) (l : List α) (s t : List Char) :
    elements print (a :: l) ++ s ≠ ']' :: t := by
  obtain ⟨r, hr⟩ := hhead a
  cases l with
  | nil =>
      rw [elements, hr]
      exact fun h => hc (List.cons.inj h).1
  | cons b l =>
      rw [elements, hr]
      exact fun h => hc (List.cons.inj h).1

theorem elements_close {print : α → List Char} (h : Delimits print) {c : Char} (hc : c ≠ ']')
    (hhead : ∀ a, ∃ r, print a = c :: r) (l m : List α) (s t : List Char)
    (hlm : elements print l ++ ']' :: s = elements print m ++ ']' :: t) : l = m ∧ s = t := by
  induction l generalizing m with
  | nil =>
      cases m with
      | nil => exact ⟨rfl, (List.cons.inj hlm).2⟩
      | cons b m => exact absurd hlm.symm (elements_ne_close hc hhead b m _ _)
  | cons a l ih =>
      cases m with
      | nil => exact absurd hlm (elements_ne_close hc hhead a l _ _)
      | cons b m =>
          -- After the first value stands a comma when there are more, and the bracket otherwise.
          cases l with
          | nil =>
              cases m with
              | nil =>
                  obtain ⟨rfl, hrest⟩ := h a b _ _ hlm
                  exact ⟨rfl, (List.cons.inj hrest).2⟩
              | cons b' m =>
                  simp only [elements, List.append_assoc, List.cons_append] at hlm
                  exact absurd (List.cons.inj (h a b _ _ hlm).2).1 (by decide)
          | cons a' l =>
              cases m with
              | nil =>
                  simp only [elements, List.append_assoc, List.cons_append] at hlm
                  exact absurd (List.cons.inj (h a b _ _ hlm).2).1 (by decide)
              | cons b' m =>
                  simp only [elements, List.append_assoc, List.cons_append] at hlm
                  obtain ⟨rfl, hrest⟩ := h a b _ _ hlm
                  obtain ⟨htail, hst⟩ := ih (b' :: m) (List.cons.inj hrest).2
                  exact ⟨by rw [htail], hst⟩

/-- **Lists of delimited values delimit**, when every value begins with a symbol that is not the
closing bracket. -/
theorem Delimits.array {print : α → List Char} (h : Delimits print) {c : Char} (hc : c ≠ ']')
    (hhead : ∀ a, ∃ r, print a = c :: r) : Delimits (JsonTexts.array print) := by
  intro l m s t hlm
  have hbody : elements print l ++ ']' :: s = elements print m ++ ']' :: t := by
    simpa [JsonTexts.array] using hlm
  exact elements_close h hc hhead l m s t hbody

/-! ### Quoted texts -/

/-- A word of codes up to a symbol that begins none of them. -/
theorem flatMap_stop {code : γ → List γ} (hcode : Instantaneous code) {stop : γ}
    (hstop : ∀ a r, code a ≠ stop :: r) (s t u v : List γ)
    (h : s.flatMap code ++ stop :: u = t.flatMap code ++ stop :: v) : s = t ∧ u = v := by
  induction s generalizing t with
  | nil =>
      cases t with
      | nil => exact ⟨rfl, (List.cons.inj h).2⟩
      | cons b t =>
          obtain ⟨x, r, hx⟩ := List.exists_cons_of_ne_nil (hcode.nonempty b)
          rw [List.flatMap_cons, hx] at h
          exact absurd (hx.trans (by rw [← (List.cons.inj h).1])) (hstop b r)
  | cons a s ih =>
      cases t with
      | nil =>
          obtain ⟨x, r, hx⟩ := List.exists_cons_of_ne_nil (hcode.nonempty a)
          rw [List.flatMap_cons, hx] at h
          exact absurd (hx.trans (by rw [(List.cons.inj h).1])) (hstop a r)
      | cons b t =>
          rw [List.flatMap_cons, List.flatMap_cons, List.append_assoc, List.append_assoc] at h
          have hab : a = b := by
            rcases List.prefix_or_prefix_of_prefix (List.prefix_append (code a) _)
              (h ▸ List.prefix_append (code b) _) with hstart | hstart
            · exact hcode.start a b hstart
            · exact (hcode.start b a hstart).symm
          subst hab
          obtain ⟨hst, huv⟩ := ih t (List.append_cancel_left h)
          exact ⟨by rw [hst], huv⟩

/-- One hexadecimal digit. -/
def hexDigit (n : ℕ) : Char := if n < 10 then Char.ofNat (48 + n) else Char.ofNat (87 + n)

/-- One symbol of a quoted text: the quotation mark, the backslash and the control symbols are
escaped. -/
def escaped (c : Char) : List Char :=
  if c = '"' then ['\\', '"']
  else if c = '\\' then ['\\', '\\']
  else if c.toNat = 8 then ['\\', 'b']
  else if c.toNat = 12 then ['\\', 'f']
  else if c.toNat = 10 then ['\\', 'n']
  else if c.toNat = 13 then ['\\', 'r']
  else if c.toNat = 9 then ['\\', 't']
  else if c.toNat < 32 then
    ['\\', 'u', '0', '0', hexDigit (c.toNat / 16), hexDigit (c.toNat % 16)]
  else [c]

/-- A text in quotation marks. -/
def quoted (s : List Char) : List Char := '"' :: (s.flatMap escaped ++ ['"'])

/-- The symbols with an escape. -/
def specials : List Char := '"' :: '\\' :: (List.range 32).map Char.ofNat

theorem mem_specials_of_lt {c : Char} (h : c.toNat < 32) : c ∈ specials := by
  have hc : c = Char.ofNat c.toNat := (Char.ofNat_toNat c).symm
  rw [hc]
  exact List.mem_cons_of_mem _ (List.mem_cons_of_mem _
    (List.mem_map_of_mem (List.mem_range.mpr h)))

theorem escaped_plain {c : Char} (h : c ∉ specials) : escaped c = [c] := by
  have hquote : c ≠ '"' := fun hc => h (hc ▸ List.mem_cons_self)
  have hslash : c ≠ '\\' := fun hc => h (hc ▸ List.mem_cons_of_mem _ List.mem_cons_self)
  have hcontrol : ¬ c.toNat < 32 := fun hc => h (mem_specials_of_lt hc)
  have h8 : c.toNat ≠ 8 := by omega
  have h12 : c.toNat ≠ 12 := by omega
  have h10 : c.toNat ≠ 10 := by omega
  have h13 : c.toNat ≠ 13 := by omega
  have h9 : c.toNat ≠ 9 := by omega
  simp only [escaped, hquote, hslash, h8, h12, h10, h13, h9, hcontrol, if_false]

theorem escaped_special {c : Char} (h : c ∈ specials) : ∃ x r, escaped c = '\\' :: x :: r := by
  have hall : specials.all (fun d => (escaped d).head? = some '\\' ∧ 2 ≤ (escaped d).length) = true := by
    decide
  obtain ⟨hhead, hlength⟩ := of_decide_eq_true (List.all_eq_true.mp hall c h)
  cases hc : escaped c with
  | nil => simp [hc] at hlength
  | cons y l =>
      cases l with
      | nil => simp [hc] at hlength
      | cons x r =>
          have hy : y = '\\' := by simpa [hc] using hhead
          exact ⟨x, r, by rw [hy]⟩

theorem escaped_special_start {a b : Char} (ha : a ∈ specials) (hb : b ∈ specials)
    (h : escaped a <+: escaped b) : a = b := by
  have hall : specials.all (fun a => specials.all fun b => escaped a <+: escaped b → a = b) = true := by
    decide
  exact of_decide_eq_true (List.all_eq_true.mp (List.all_eq_true.mp hall a ha) b hb) h

/-- **No escape begins another.** -/
theorem escaped_instantaneous : Instantaneous escaped where
  nonempty := by
    intro a
    by_cases ha : a ∈ specials
    · obtain ⟨x, r, hx⟩ := escaped_special ha
      rw [hx]
      exact List.cons_ne_nil _ _
    · rw [escaped_plain ha]
      exact List.cons_ne_nil _ _
  start := by
    intro a b hab
    have hslash : '\\' ∈ specials := by decide
    by_cases ha : a ∈ specials
    · by_cases hb : b ∈ specials
      · exact escaped_special_start ha hb hab
      · obtain ⟨x, r, hx⟩ := escaped_special ha
        rw [hx, escaped_plain hb] at hab
        exact absurd hab.length_le (by simp)
    · rw [escaped_plain ha] at hab
      by_cases hb : b ∈ specials
      · obtain ⟨x, r, hx⟩ := escaped_special hb
        rw [hx] at hab
        exact absurd ((List.cons_prefix_cons.mp hab).1 ▸ hslash) ha
      · rw [escaped_plain hb] at hab
        exact (List.cons_prefix_cons.mp hab).1

theorem escaped_ne_quote (a : Char) (r : List Char) : escaped a ≠ '"' :: r := by
  by_cases ha : a ∈ specials
  · obtain ⟨x, l, hx⟩ := escaped_special ha
    rw [hx]
    exact fun h => absurd (List.cons.inj h).1 (by decide)
  · rw [escaped_plain ha]
    exact fun h => ha ((List.cons.inj h).1 ▸ List.mem_cons_self)

theorem quoted_delimits : Delimits quoted := by
  intro a b s t hab
  have hbody : a.flatMap escaped ++ '"' :: s = b.flatMap escaped ++ '"' :: t := by
    simpa [quoted] using hab
  exact flatMap_stop escaped_instantaneous escaped_ne_quote a b s t hbody

/-- A text of the program in quotation marks. -/
def quotedString (s : String) : List Char := quoted s.toList

theorem quotedString_delimits : Delimits quotedString :=
  quoted_delimits.comp fun _ _ h => String.ext h

/-- A printed truth value. -/
def truth : Bool → List Char
  | true => ['t', 'r', 'u', 'e']
  | false => ['f', 'a', 'l', 's', 'e']

end TransportBackend.JsonTexts
