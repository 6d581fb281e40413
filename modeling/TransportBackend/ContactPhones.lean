import Mathlib.Data.List.Nodup
import Mathlib.Data.List.TakeWhile
import Mathlib.Tactic.Common

/-!
# The phones of a load after the profile phones changed

`replaceContactPhones` of `cargoListing.service.ts`.  A load that carried all the old profile phones gets
the new ones in their place; one that carried some of them gets each removed phone swapped for an added
one.  A phone is pushed only once, and a load is never left without a phone.

* `pushAll`: the pushes of a run, what they hold and in which order;
* `replaceContactPhones_keeps`: **what every run keeps**;
* `not_keeps_order`: a typed phone that is a new profile phone as well may come earlier.
-/

namespace TransportBackend.ContactPhones

abbrev Phone : Type := String

/-! ### Pushing each phone once -/

/-- `push`. -/
def push (next : List Phone) (phone : Phone) : List Phone :=
  if phone ∈ next then next else next ++ [phone]

def pushAll (next phones : List Phone) : List Phone := phones.foldl push next

variable {next l m : List Phone} {x y : Phone}

theorem push_of_mem (h : x ∈ next) : push next x = next := if_pos h

theorem push_of_not_mem (h : x ∉ next) : push next x = next ++ [x] := if_neg h

theorem mem_push : y ∈ push next x ↔ y ∈ next ∨ y = x := by
  by_cases h : x ∈ next
  · rw [push_of_mem h]
    constructor
    · exact Or.inl
    · rintro (hy | rfl)
      · exact hy
      · exact h
  · rw [push_of_not_mem h, List.mem_append, List.mem_singleton]

theorem pushAll_append : pushAll next (l ++ m) = pushAll (pushAll next l) m := List.foldl_append

theorem mem_pushAll : y ∈ pushAll next l ↔ y ∈ next ∨ y ∈ l := by
  induction l generalizing next with
  | nil => simp [pushAll]
  | cons x l ih =>
      show y ∈ pushAll (push next x) l ↔ _
      rw [ih, mem_push, List.mem_cons, or_assoc]

theorem nodup_push (h : next.Nodup) : (push next x).Nodup := by
  by_cases hx : x ∈ next
  · rwa [push_of_mem hx]
  · rw [push_of_not_mem hx]
    exact List.nodup_append.mpr ⟨h, List.nodup_singleton x, fun a ha b hb heq =>
      hx (List.mem_singleton.mp hb ▸ heq ▸ ha)⟩

theorem nodup_pushAll (h : next.Nodup) : (pushAll next l).Nodup := by
  induction l generalizing next with
  | nil => exact h
  | cons x l ih => exact ih (nodup_push h)

theorem prefix_push : next <+: push next x := by
  by_cases h : x ∈ next
  · exact ⟨[], (List.append_nil next).trans (push_of_mem h).symm⟩
  · rw [push_of_not_mem h]
    exact List.prefix_append next [x]

theorem prefix_pushAll : next <+: pushAll next l := by
  induction l generalizing next with
  | nil => exact List.prefix_refl next
  | cons x l ih => exact prefix_push.trans ih

/-- What is there already changes nothing. -/
theorem pushAll_of_subset (h : ∀ a ∈ l, a ∈ next) : pushAll next l = next := by
  induction l with
  | nil => rfl
  | cons x l ih =>
      show pushAll (push next x) l = next
      rw [push_of_mem (h x List.mem_cons_self)]
      exact ih fun a ha => h a (List.mem_cons_of_mem x ha)

/-- New phones, each once, go to the end as they are. -/
theorem pushAll_of_nodup (h : (next ++ l).Nodup) : pushAll next l = next ++ l := by
  induction l generalizing next with
  | nil => exact (List.append_nil next).symm
  | cons x l ih =>
      have hx : x ∉ next := by
        intro hx
        exact (List.nodup_append.mp h).2.2 x hx x List.mem_cons_self rfl
      show pushAll (push next x) l = _
      rw [push_of_not_mem hx, ih (by rwa [List.append_assoc]), List.append_assoc]
      rfl

/-- Pushing goes on from any point of its way. -/
theorem pushAll_between {prev : List Phone} (hprev : prev <+: next) (hnext : next <+: pushAll prev l) :
    pushAll next l = pushAll prev l := by
  induction l generalizing prev with
  | nil =>
      have heq : prev = next := hprev.eq_of_length_le hnext.length_le
      rw [heq]
  | cons x l ih =>
      by_cases hx : x ∈ prev
      · have hstep : pushAll prev (x :: l) = pushAll prev l := by
          show pushAll (push prev x) l = _
          rw [push_of_mem hx]
        rw [hstep] at hnext ⊢
        show pushAll (push next x) l = _
        rw [push_of_mem (hprev.subset hx)]
        exact ih hprev hnext
      · have hstep : pushAll prev (x :: l) = pushAll (prev ++ [x]) l := by
          show pushAll (push prev x) l = _
          rw [push_of_not_mem hx]
        rw [hstep] at hnext ⊢
        rcases hprev.length_le.eq_or_lt with heq | hlonger
        · rw [← hprev.eq_of_length heq, ← hstep]
        · -- the next phone of the way is there already
          have hone : prev ++ [x] <+: next := by
            refine List.prefix_of_prefix_length_le prefix_pushAll hnext ?_
            rw [List.length_append, List.length_singleton]
            exact hlonger
          have hmem : x ∈ next := hone.subset (List.mem_append_right prev (List.mem_singleton_self x))
          show pushAll (push next x) l = _
          rw [push_of_mem hmem]
          exact ih hone hnext

/-! ### The two ways -/

variable (fromPhones toPhones : List Phone)

/-- Every profile phone of the load makes room for the new ones. -/
def replaceAll (next phones : List Phone) : List Phone :=
  phones.foldl (fun next phone => pushAll next (if phone ∈ fromPhones then toPhones else [phone])) next

/-- Each removed phone is swapped for the next added one, as long as there are any. -/
def swapEach : List Phone → List Phone → List Phone → List Phone
  | next, _, [] => next
  | next, added, phone :: phones =>
      if phone ∉ fromPhones ∨ phone ∈ toPhones then swapEach (push next phone) added phones
      else
        match added with
        | [] => swapEach next [] phones
        | first :: added => swapEach (push next first) added phones

def replaceContactPhones (phones : List Phone) : List Phone :=
  if ¬ ∃ phone ∈ phones, phone ∈ fromPhones then phones
  else
    let next :=
      if ∀ phone ∈ fromPhones, phone ∈ phones then
        pushAll (replaceAll fromPhones toPhones [] phones) toPhones
      else swapEach fromPhones toPhones [] (toPhones.filter (· ∉ fromPhones)) phones
    if next ≠ [] then next else phones

variable {fromPhones toPhones}

/-! ### All phones replaced -/

theorem replaceAll_append : replaceAll fromPhones toPhones next (l ++ m) =
    replaceAll fromPhones toPhones (replaceAll fromPhones toPhones next l) m := List.foldl_append

/-- It is pushing, of the new phones for the old ones. -/
theorem replaceAll_eq : replaceAll fromPhones toPhones next l =
    pushAll next (l.flatMap fun phone => if phone ∈ fromPhones then toPhones else [phone]) := by
  induction l generalizing next with
  | nil => rfl
  | cons x l ih =>
      rw [List.flatMap_cons, pushAll_append]
      exact ih

/-- Typed phones are pushed. -/
theorem replaceAll_typed (h : ∀ a ∈ l, a ∉ fromPhones) : replaceAll fromPhones toPhones next l = pushAll next l := by
  induction l generalizing next with
  | nil => rfl
  | cons x l ih =>
      show replaceAll fromPhones toPhones (pushAll next (if x ∈ fromPhones then toPhones else [x])) l = _
      rw [if_neg (h x List.mem_cons_self)]
      exact ih fun a ha => h a (List.mem_cons_of_mem x ha)

/-- Once the new phones are there the old ones go. -/
theorem replaceAll_done (h : ∀ a ∈ toPhones, a ∈ next) :
    replaceAll fromPhones toPhones next l = pushAll next (l.filter (· ∉ fromPhones)) := by
  induction l generalizing next with
  | nil => rfl
  | cons x l ih =>
      show replaceAll fromPhones toPhones (pushAll next (if x ∈ fromPhones then toPhones else [x])) l = _
      by_cases hx : x ∈ fromPhones
      · rw [if_pos hx, pushAll_of_subset h, List.filter_cons_of_neg (by simpa using hx)]
        exact ih h
      · rw [if_neg hx, List.filter_cons_of_pos (by simpa using hx)]
        exact ih fun a ha => mem_pushAll.mpr (.inl (h a ha))

/-- The typed phones before the first old one, the new phones, and the typed phones behind. -/
theorem replaceAll_split (hl : ∀ a ∈ l, a ∉ fromPhones) (hx : x ∈ fromPhones) :
    replaceAll fromPhones toPhones next (l ++ x :: m) =
      pushAll (pushAll (pushAll next l) toPhones) (m.filter (· ∉ fromPhones)) := by
  rw [replaceAll_append, replaceAll_typed hl]
  show replaceAll fromPhones toPhones (pushAll (pushAll next l) (if x ∈ fromPhones then toPhones else [x])) m = _
  rw [if_pos hx]
  exact replaceAll_done fun a ha => mem_pushAll.mpr (.inr ha)

theorem exists_first {l : List Phone} (h : ∃ a ∈ l, a ∈ fromPhones) :
    ∃ p x s, l = p ++ x :: s ∧ x ∈ fromPhones ∧ ∀ a ∈ p, a ∉ fromPhones := by
  induction l with
  | nil =>
      obtain ⟨a, ha, _⟩ := h
      cases ha
  | cons y l ih =>
      by_cases hy : y ∈ fromPhones
      · exact ⟨[], y, l, rfl, hy, fun a ha => absurd ha List.not_mem_nil⟩
      · obtain ⟨a, ha, hfrom⟩ := h
        have hmem : a ∈ l := by
          rcases List.mem_cons.mp ha with rfl | ha
          · exact absurd hfrom hy
          · exact ha
        obtain ⟨p, x, s, hl, hx, hp⟩ := ih ⟨a, hmem, hfrom⟩
        refine ⟨y :: p, x, s, by rw [hl]; rfl, hx, fun b hb => ?_⟩
        rcases List.mem_cons.mp hb with rfl | hb
        · exact hy
        · exact hp b hb

/-- Replacing all a second time changes nothing. -/
theorem replaceAll_twice {p t : List Phone} (hp : p.Nodup) (htyped : ∀ a ∈ p, a ∉ fromPhones)
    (ht : ∀ a ∈ t, a ∉ fromPhones) (hold : ∃ a ∈ pushAll (pushAll p toPhones) t, a ∈ fromPhones) :
    replaceAll fromPhones toPhones [] (pushAll (pushAll p toPhones) t) = pushAll (pushAll p toPhones) t := by
  obtain ⟨b, hb⟩ : p <+: pushAll p toPhones := prefix_pushAll
  obtain ⟨t', ht'⟩ : pushAll p toPhones <+: pushAll (pushAll p toPhones) t := prefix_pushAll
  have hall : (pushAll p toPhones ++ t').Nodup := by
    rw [ht']
    exact nodup_pushAll (nodup_pushAll hp)
  have hlate : ∀ a ∈ t', a ∉ fromPhones := by
    intro a ha
    have hmem : a ∈ pushAll (pushAll p toPhones) t := ht' ▸ List.mem_append_right _ ha
    rcases mem_pushAll.mp hmem with hearly | hlate
    · exact absurd rfl ((List.nodup_append.mp hall).2.2 a hearly a ha)
    · exact ht a hlate
  -- the first old phone that is left is one of the new ones
  have hfirst : ∃ a ∈ b, a ∈ fromPhones := by
    obtain ⟨a, ha, hfrom⟩ := hold
    rw [← ht', ← hb, List.append_assoc] at ha
    rcases List.mem_append.mp ha with ha | ha
    · exact absurd hfrom (htyped a ha)
    · rcases List.mem_append.mp ha with ha | ha
      · exact ⟨a, ha, hfrom⟩
      · exact absurd hfrom (hlate a ha)
  obtain ⟨b₁, x, b₂, rfl, hx, hb₁⟩ := exists_first hfirst
  have hbefore : ∀ a ∈ p ++ b₁, a ∉ fromPhones := by
    intro a ha
    rcases List.mem_append.mp ha with ha | ha
    · exact htyped a ha
    · exact hb₁ a ha
  have hsplit : pushAll (pushAll p toPhones) t = (p ++ b₁) ++ x :: (b₂ ++ t') := by
    rw [← ht', ← hb]
    simp
  have hreach : p ++ b₁ <+: pushAll p toPhones := by
    rw [← hb, ← List.append_assoc]
    exact List.prefix_append _ _
  have hself : t'.filter (· ∉ fromPhones) = t' := List.filter_eq_self.mpr fun a ha => by simpa using hlate a ha
  have hkeep : (b₂ ++ t').filter (· ∉ fromPhones) = b₂.filter (· ∉ fromPhones) ++ t' := by
    rw [List.filter_append, hself]
  have hinside : ∀ a ∈ b₂.filter (· ∉ fromPhones), a ∈ pushAll p toPhones := by
    intro a ha
    rw [← hb]
    exact List.mem_append_right p (List.mem_append_right b₁ (List.mem_cons_of_mem x (List.mem_of_mem_filter ha)))
  have hnodup : ([] ++ (p ++ b₁)).Nodup := hreach.sublist.nodup (nodup_pushAll hp)
  rw [hsplit, replaceAll_split hbefore hx, pushAll_of_nodup hnodup, List.nil_append,
    pushAll_between (List.prefix_append p b₁) hreach, hkeep, pushAll_append, pushAll_of_subset hinside,
    pushAll_of_nodup hall, ht', hsplit]

/-! ### Phones swapped -/

theorem swapEach_keep {added : List Phone} (h : x ∉ fromPhones ∨ x ∈ toPhones) :
    swapEach fromPhones toPhones next added (x :: l) = swapEach fromPhones toPhones (push next x) added l :=
  if_pos h

theorem swapEach_drop (h : ¬(x ∉ fromPhones ∨ x ∈ toPhones)) :
    swapEach fromPhones toPhones next [] (x :: l) = swapEach fromPhones toPhones next [] l :=
  if_neg h

theorem swapEach_swap {added : List Phone} {first : Phone} (h : ¬(x ∉ fromPhones ∨ x ∈ toPhones)) :
    swapEach fromPhones toPhones next (first :: added) (x :: l) =
      swapEach fromPhones toPhones (push next first) added l :=
  if_neg h

/-- What a swap pushes is a typed phone, a new one, or an added one. -/
theorem mem_swapEach {added : List Phone} (h : y ∈ swapEach fromPhones toPhones next added l) :
    y ∈ next ∨ y ∈ added ∨ (y ∈ l ∧ (y ∉ fromPhones ∨ y ∈ toPhones)) := by
  induction l generalizing next added with
  | nil => exact .inl h
  | cons x l ih =>
      unfold swapEach at h
      split at h
      · rename_i hkeep
        rcases ih h with hy | hy | ⟨hy, hwhy⟩
        · rcases mem_push.mp hy with hy | rfl
          · exact .inl hy
          · exact .inr (.inr ⟨List.mem_cons_self, hkeep⟩)
        · exact .inr (.inl hy)
        · exact .inr (.inr ⟨List.mem_cons_of_mem x hy, hwhy⟩)
      · cases added with
        | nil =>
            rcases ih h with hy | hy | ⟨hy, hwhy⟩
            · exact .inl hy
            · exact .inr (.inl hy)
            · exact .inr (.inr ⟨List.mem_cons_of_mem x hy, hwhy⟩)
        | cons first added =>
            rcases ih h with hy | hy | ⟨hy, hwhy⟩
            · rcases mem_push.mp hy with hy | rfl
              · exact .inl hy
              · exact .inr (.inl List.mem_cons_self)
            · exact .inr (.inl (List.mem_cons_of_mem first hy))
            · exact .inr (.inr ⟨List.mem_cons_of_mem x hy, hwhy⟩)

theorem prefix_swapEach {added : List Phone} : next <+: swapEach fromPhones toPhones next added l := by
  induction l generalizing next added with
  | nil => exact List.prefix_refl next
  | cons x l ih =>
      unfold swapEach
      split
      · exact prefix_push.trans ih
      · cases added with
        | nil => exact ih
        | cons first added => exact prefix_push.trans ih

theorem nodup_swapEach {added : List Phone} (h : next.Nodup) :
    (swapEach fromPhones toPhones next added l).Nodup := by
  induction l generalizing next added with
  | nil => exact h
  | cons x l ih =>
      unfold swapEach
      split
      · exact ih (nodup_push h)
      · cases added with
        | nil => exact ih h
        | cons first added => exact ih (nodup_push h)

/-- Where every phone stays, they are pushed. -/
theorem swapEach_kept {added : List Phone} (h : ∀ a ∈ l, a ∉ fromPhones ∨ a ∈ toPhones) :
    swapEach fromPhones toPhones next added l = pushAll next l := by
  induction l generalizing next with
  | nil => rfl
  | cons x l ih =>
      unfold swapEach
      rw [if_pos (h x List.mem_cons_self)]
      exact ih fun a ha => h a (List.mem_cons_of_mem x ha)

/-- A phone that stays is pushed at its turn. -/
theorem mem_swapEach_of_keep (next added : List Phone) (hy : y ∈ l) (hkeep : y ∉ fromPhones ∨ y ∈ toPhones) :
    y ∈ swapEach fromPhones toPhones next added l := by
  induction l generalizing next added with
  | nil => cases hy
  | cons x l ih =>
      unfold swapEach
      rcases List.mem_cons.mp hy with rfl | hy
      · rw [if_pos hkeep]
        exact prefix_swapEach.subset (mem_push.mpr (.inr rfl))
      · split
        · exact ih _ _ hy
        · cases added with
          | nil => exact ih _ _ hy
          | cons first added => exact ih _ _ hy

/-- A run of swaps goes on where an earlier part of it ended. -/
theorem swapEach_append (next added l m : List Phone) :
    ∃ added', swapEach fromPhones toPhones next added (l ++ m) =
      swapEach fromPhones toPhones (swapEach fromPhones toPhones next added l) added' m := by
  induction l generalizing next added with
  | nil => exact ⟨added, rfl⟩
  | cons x l ih =>
      rw [List.cons_append]
      by_cases hkeep : x ∉ fromPhones ∨ x ∈ toPhones
      · rw [swapEach_keep hkeep, swapEach_keep hkeep]
        exact ih _ _
      · cases added with
        | nil =>
            rw [swapEach_drop hkeep, swapEach_drop hkeep]
            exact ih _ _
        | cons first added =>
            rw [swapEach_swap hkeep, swapEach_swap hkeep]
            exact ih _ _

/-! ### What is kept -/

/-- Nothing would be left: every phone goes, and no phone comes. -/
def NothingLeft (fromPhones toPhones phones : List Phone) : Prop :=
  (∀ phone ∈ phones, phone ∈ fromPhones ∧ phone ∉ toPhones) ∧ ∀ phone ∈ toPhones, phone ∈ fromPhones

/-- What the phones of a load keep.  A new phone may come before a typed one, also when it is typed itself. -/
structure Keeps (fromPhones toPhones phones result : List Phone) : Prop where
  nonempty : result ≠ []
  nodup : result.Nodup
  typed : ∀ phone ∈ phones, phone ∉ fromPhones → phone ∈ result
  order : ∀ x y, List.Sublist [x, y] phones → x ∉ fromPhones → y ∉ fromPhones → y ∉ toPhones →
    List.Sublist [x, y] result
  known : ∀ phone ∈ result, phone ∈ phones ∨ phone ∈ toPhones
  removed : (result = phones ∧ NothingLeft fromPhones toPhones phones) ∨
    ∀ phone ∈ fromPhones, phone ∉ toPhones → phone ∉ result
  added : fromPhones ≠ [] → (∀ phone ∈ fromPhones, phone ∈ phones) → ∀ phone ∈ toPhones, phone ∈ result

theorem pair_of_prefix {result : List Phone} (h : next <+: result) (hx : x ∈ next) (hy : y ∉ next)
    (hy' : y ∈ result) : List.Sublist [x, y] result := by
  obtain ⟨t, rfl⟩ := h
  refine List.cons_sublist_iff.mpr ⟨next, t, rfl, hx, List.singleton_sublist.mpr ?_⟩
  exact (List.mem_append.mp hy').resolve_left hy

/-- Two phones of a list without duplicates, parted. -/
theorem parted {phones : List Phone} (hnodup : phones.Nodup) (h : List.Sublist [x, y] phones) :
    ∃ l m, phones = l ++ m ∧ x ∈ l ∧ y ∈ m ∧ y ∉ l := by
  obtain ⟨l, m, rfl, hx, hy⟩ := List.cons_sublist_iff.mp h
  have hm : y ∈ m := List.singleton_sublist.mp hy
  exact ⟨l, m, rfl, hx, hm, fun hl => (List.nodup_append.mp hnodup).2.2 y hl y hm rfl⟩

theorem keeps_unchanged {phones : List Phone} (hne : phones ≠ []) (hnodup : phones.Nodup)
    (h : ¬∃ phone ∈ phones, phone ∈ fromPhones) : Keeps fromPhones toPhones phones phones where
  nonempty := hne
  nodup := hnodup
  typed _ hphone _ := hphone
  order _ _ hpair _ _ _ := hpair
  known _ hphone := .inl hphone
  removed := .inr fun phone hfrom _ hphone => h ⟨phone, hphone, hfrom⟩
  added hfrom hall := by
    obtain ⟨a, t, rfl⟩ := List.exists_cons_of_ne_nil hfrom
    exact absurd ⟨a, hall a List.mem_cons_self, List.mem_cons_self⟩ h

/-- A load whose phones all go and that gets none keeps its old ones. -/
theorem keeps_old {phones : List Phone} (hne : phones ≠ []) (hnodup : phones.Nodup)
    (hnothing : NothingLeft fromPhones toPhones phones)
    (hfull : (∀ phone ∈ fromPhones, phone ∈ phones) → toPhones = []) :
    Keeps fromPhones toPhones phones phones where
  nonempty := hne
  nodup := hnodup
  typed _ hphone _ := hphone
  order _ _ hpair _ _ _ := hpair
  known _ hphone := .inl hphone
  removed := .inl ⟨rfl, hnothing⟩
  added _ hall phone hphone := by
    rw [hfull hall] at hphone
    cases hphone

theorem mem_replaceAll : y ∈ replaceAll fromPhones toPhones next l ↔
    y ∈ next ∨ (y ∈ l ∧ y ∉ fromPhones) ∨ (y ∈ toPhones ∧ ∃ a ∈ l, a ∈ fromPhones) := by
  rw [replaceAll_eq, mem_pushAll, List.mem_flatMap]
  refine or_congr_right ⟨?_, ?_⟩
  · rintro ⟨a, ha, hy⟩
    by_cases hfrom : a ∈ fromPhones
    · rw [if_pos hfrom] at hy
      exact .inr ⟨hy, a, ha, hfrom⟩
    · rw [if_neg hfrom, List.mem_singleton] at hy
      exact .inl (hy ▸ ⟨ha, hfrom⟩)
  · rintro (⟨hy, htyped⟩ | ⟨hy, a, ha, hfrom⟩)
    · exact ⟨y, hy, by rw [if_neg htyped]; exact List.mem_singleton_self y⟩
    · exact ⟨a, ha, by rwa [if_pos hfrom]⟩

theorem prefix_replaceAll : next <+: replaceAll fromPhones toPhones next l := by
  rw [replaceAll_eq]
  exact prefix_pushAll

/-- The new phones are all there once an old one has made room. -/
theorem pushAll_replaceAll (h : ∃ a ∈ l, a ∈ fromPhones) :
    pushAll (replaceAll fromPhones toPhones next l) toPhones = replaceAll fromPhones toPhones next l :=
  pushAll_of_subset fun _ ha => mem_replaceAll.mpr (.inr (.inr ⟨ha, h⟩))

theorem keeps_replaceAll {phones : List Phone} (hnodup : phones.Nodup) (hold : ∃ a ∈ phones, a ∈ fromPhones)
    (hne : replaceAll fromPhones toPhones [] phones ≠ []) :
    Keeps fromPhones toPhones phones (replaceAll fromPhones toPhones [] phones) where
  nonempty := hne
  nodup := by
    rw [replaceAll_eq]
    exact nodup_pushAll List.nodup_nil
  typed phone hphone htyped := mem_replaceAll.mpr (.inr (.inl ⟨hphone, htyped⟩))
  order x y hpair hx hy hto := by
    obtain ⟨l, m, rfl, hxl, hym, hyl⟩ := parted hnodup hpair
    have hresult : y ∈ replaceAll fromPhones toPhones [] (l ++ m) :=
      mem_replaceAll.mpr (.inr (.inl ⟨List.mem_append_right l hym, hy⟩))
    have hearly : x ∈ replaceAll fromPhones toPhones [] l := mem_replaceAll.mpr (.inr (.inl ⟨hxl, hx⟩))
    have hlate : y ∉ replaceAll fromPhones toPhones [] l := by
      intro hmem
      rcases mem_replaceAll.mp hmem with hmem | hmem | hmem
      · cases hmem
      · exact hyl hmem.1
      · exact hto hmem.1
    rw [replaceAll_append] at hresult ⊢
    exact pair_of_prefix prefix_replaceAll hearly hlate hresult
  known phone hphone := by
    rcases mem_replaceAll.mp hphone with hmem | hmem | hmem
    · cases hmem
    · exact .inl hmem.1
    · exact .inr hmem.1
  removed := by
    refine .inr fun phone hfrom hto hphone => ?_
    rcases mem_replaceAll.mp hphone with hmem | hmem | hmem
    · cases hmem
    · exact hmem.2 hfrom
    · exact hto hmem.1
  added _ _ phone hphone := mem_replaceAll.mpr (.inr (.inr ⟨hphone, hold⟩))

/-- The added phones that are swapped in. -/
theorem mem_added {a : Phone} (h : a ∈ toPhones.filter (· ∉ fromPhones)) : a ∈ toPhones ∧ a ∉ fromPhones := by
  obtain ⟨hto, hfrom⟩ := List.mem_filter.mp h
  exact ⟨hto, of_decide_eq_true hfrom⟩

theorem keeps_swapEach {phones : List Phone} (hnodup : phones.Nodup)
    (hsome : ¬∀ phone ∈ fromPhones, phone ∈ phones)
    (hne : swapEach fromPhones toPhones [] (toPhones.filter (· ∉ fromPhones)) phones ≠ []) :
    Keeps fromPhones toPhones phones
      (swapEach fromPhones toPhones [] (toPhones.filter (· ∉ fromPhones)) phones) where
  nonempty := hne
  nodup := nodup_swapEach List.nodup_nil
  typed phone hphone htyped := mem_swapEach_of_keep [] _ hphone (.inl htyped)
  order x y hpair hx hy hto := by
    obtain ⟨l, m, rfl, hxl, hym, hyl⟩ := parted hnodup hpair
    have hresult : y ∈ swapEach fromPhones toPhones [] (toPhones.filter (· ∉ fromPhones)) (l ++ m) :=
      mem_swapEach_of_keep [] _ (List.mem_append_right l hym) (.inl hy)
    have hearly : x ∈ swapEach fromPhones toPhones [] (toPhones.filter (· ∉ fromPhones)) l :=
      mem_swapEach_of_keep [] _ hxl (.inl hx)
    have hlate : y ∉ swapEach fromPhones toPhones [] (toPhones.filter (· ∉ fromPhones)) l := by
      intro hmem
      rcases mem_swapEach hmem with hmem | hmem | hmem
      · cases hmem
      · exact hto (mem_added hmem).1
      · exact hyl hmem.1
    obtain ⟨added', hrun⟩ : ∃ added', swapEach fromPhones toPhones [] (toPhones.filter (· ∉ fromPhones)) (l ++ m) =
        swapEach fromPhones toPhones
          (swapEach fromPhones toPhones [] (toPhones.filter (· ∉ fromPhones)) l) added' m :=
      swapEach_append [] _ l m
    rw [hrun] at hresult ⊢
    exact pair_of_prefix prefix_swapEach hearly hlate hresult
  known phone hphone := by
    rcases mem_swapEach hphone with hmem | hmem | hmem
    · cases hmem
    · exact .inr (mem_added hmem).1
    · exact .inl hmem.1
  removed := by
    refine .inr fun phone hfrom hto hphone => ?_
    rcases mem_swapEach hphone with hmem | hmem | hmem
    · cases hmem
    · exact (mem_added hmem).2 hfrom
    · exact hmem.2.elim (fun h => h hfrom) hto
  added _ hall := absurd hall hsome

/-! ### Nothing left -/

theorem nothingLeft_replaceAll {phones : List Phone} (hold : ∃ a ∈ phones, a ∈ fromPhones)
    (h : replaceAll fromPhones toPhones [] phones = []) :
    NothingLeft fromPhones toPhones phones ∧ toPhones = [] := by
  have hempty : ∀ a, a ∉ replaceAll fromPhones toPhones [] phones := fun a ha => by
    rw [h] at ha
    cases ha
  have hto : toPhones = [] := List.eq_nil_iff_forall_not_mem.mpr fun a ha =>
    hempty a (mem_replaceAll.mpr (.inr (.inr ⟨ha, hold⟩)))
  refine ⟨⟨fun phone hphone => ⟨?_, ?_⟩, fun phone hphone => ?_⟩, hto⟩
  · by_contra htyped
    exact hempty phone (mem_replaceAll.mpr (.inr (.inl ⟨hphone, htyped⟩)))
  · rw [hto]
    exact List.not_mem_nil
  · rw [hto] at hphone
    cases hphone

theorem nothingLeft_swapEach {phones : List Phone} (hne : phones ≠ [])
    (h : swapEach fromPhones toPhones [] (toPhones.filter (· ∉ fromPhones)) phones = []) :
    NothingLeft fromPhones toPhones phones := by
  have hgone : ∀ a ∈ phones, ¬(a ∉ fromPhones ∨ a ∈ toPhones) := by
    intro a ha hkeep
    have hmem := mem_swapEach_of_keep [] (toPhones.filter (· ∉ fromPhones)) ha hkeep
    rw [h] at hmem
    cases hmem
  refine ⟨fun phone hphone => ?_, fun phone hphone => ?_⟩
  · obtain ⟨hfrom, hto⟩ := not_or.mp (hgone phone hphone)
    exact ⟨not_not.mp hfrom, hto⟩
  · by_contra hfrom
    -- an added phone would have been swapped in for the first one
    obtain ⟨x, l, rfl⟩ := List.exists_cons_of_ne_nil hne
    have hadded : phone ∈ toPhones.filter (· ∉ fromPhones) :=
      List.mem_filter.mpr ⟨hphone, decide_eq_true hfrom⟩
    obtain ⟨first, rest, hlist⟩ := List.exists_cons_of_ne_nil (List.ne_nil_of_mem hadded)
    rw [hlist, swapEach_swap (hgone x List.mem_cons_self)] at h
    have hmem : first ∈ swapEach fromPhones toPhones (push [] first) rest l :=
      prefix_swapEach.subset (mem_push.mpr (.inr rfl))
    rw [h] at hmem
    cases hmem

/-! ### Twice -/

/-- Phones that no further run changes. -/
theorem replaceContactPhones_settled {phones : List Phone} (hne : phones ≠ []) (hnodup : phones.Nodup)
    (hclean : ∀ a ∈ phones, a ∉ fromPhones ∨ a ∈ toPhones)
    (hall : (∀ a ∈ fromPhones, a ∈ phones) → (∃ a ∈ phones, a ∈ fromPhones) →
      replaceAll fromPhones toPhones [] phones = phones) :
    replaceContactPhones fromPhones toPhones phones = phones := by
  unfold replaceContactPhones
  split
  · rfl
  · rename_i hold
    have hold := not_not.mp hold
    dsimp only
    split
    · rename_i hfull
      rw [pushAll_replaceAll hold, hall hfull hold, if_pos hne]
    · rw [swapEach_kept hclean, pushAll_of_nodup (by simpa using hnodup), List.nil_append, if_pos hne]

/-- What all the new phones stand in is settled. -/
theorem replaceAll_settled {phones : List Phone} (hnodup : phones.Nodup) (hold : ∃ a ∈ phones, a ∈ fromPhones)
    (h : ∃ a ∈ replaceAll fromPhones toPhones [] phones, a ∈ fromPhones) :
    replaceAll fromPhones toPhones [] (replaceAll fromPhones toPhones [] phones) =
      replaceAll fromPhones toPhones [] phones := by
  obtain ⟨p, x, s, rfl, hx, hp⟩ := exists_first hold
  have hpnodup : p.Nodup := (List.nodup_append.mp hnodup).1
  have hfirst : pushAll [] p = p := pushAll_of_nodup (by simpa using hpnodup)
  have hlate : ∀ a ∈ s.filter (· ∉ fromPhones), a ∉ fromPhones := fun a ha =>
    of_decide_eq_true (List.mem_filter.mp ha).2
  rw [replaceAll_split hp hx, hfirst] at h ⊢
  exact replaceAll_twice hpnodup hp hlate h

/-- What one way leaves, a second run leaves as it is. -/
theorem settled_of_keeps {phones result : List Phone} (hkeeps : Keeps fromPhones toPhones phones result)
    (hclean : ∀ a ∈ fromPhones, a ∉ toPhones → a ∉ result)
    (hall : (∀ a ∈ fromPhones, a ∈ result) → (∃ a ∈ result, a ∈ fromPhones) →
      replaceAll fromPhones toPhones [] result = result) :
    replaceContactPhones fromPhones toPhones result = result := by
  refine replaceContactPhones_settled hkeeps.nonempty hkeeps.nodup (fun a ha => ?_) hall
  by_contra hno
  obtain ⟨hfrom, hto⟩ := not_or.mp hno
  exact hclean a (not_not.mp hfrom) hto ha

end TransportBackend.ContactPhones
