import Mathlib.Data.List.ReduceOption
import Mathlib.Tactic

/-!
# Expressions over columns that may be null

A column, a condition or an aggregate of a query may be null.  A condition has three values, `CASE`
takes its first branch on true only, an aggregate skips nulls and is null itself over nothing, and a
`FILTER` keeps the rows its condition is true of.

* `caseWhen`, `not3`, `and3`, `or3`, `nullIf`, `greatest`, `greater` — the scalar operators;
* `overlaps`, `covers` — the operators on arrays;
* `sumOf`, `maxOf`, `countWhere` — the aggregates;
* `leftJoin` — the rows of a left join;
* `sumOf_getD` — a sum with null read as zero is the sum of its terms so read;
* `countWhere_split` — **a condition that is never null and its negation split the rows**.
-/

namespace TransportBackend.NullLogic

variable {α β : Type}

/-- True, false or null. -/
abbrev Truth : Type := Option Bool

/-- `CASE WHEN c THEN a ELSE b END`. -/
def caseWhen (c : Truth) (a b : Option α) : Option α := if c = some true then a else b

/-- `NOT c`. -/
def not3 (c : Truth) : Truth := c.map not

/-- `c AND d`: false as soon as one side is. -/
def and3 : Truth → Truth → Truth
  | some false, _ => some false
  | _, some false => some false
  | some true, some true => some true
  | _, _ => none

/-- `c OR d`: true as soon as one side is. -/
def or3 : Truth → Truth → Truth
  | some true, _ => some true
  | _, some true => some true
  | some false, some false => some false
  | _, _ => none

/-- `GREATEST(a, b)`, which skips nulls. -/
def greatest : Option ℤ → Option ℤ → Option ℤ
  | some a, some b => some (max a b)
  | some a, none => some a
  | none, b => b

/-- `a > b`. -/
def greater (a b : Option ℤ) : Truth := a.bind fun x => b.map fun y => decide (y < x)

/-- `column && ARRAY[values]`: some value is among the elements; a null element is none of them. -/
def overlaps [DecidableEq α] (column : Option (List (Option α))) (values : List α) : Truth :=
  column.map fun elements => values.any fun v => some v ∈ elements

/-- `column @> ARRAY[values]`: all values are among the elements. -/
def covers [DecidableEq α] (column : Option (List (Option α))) (values : List α) : Truth :=
  column.map fun elements => values.all fun v => some v ∈ elements

/-- `MAX`. -/
def maxOf (xs : List ℤ) : Option ℤ := xs.foldr (fun x m => greatest (some x) m) none

/-- The rows a left join puts beside one row: those that match, or a row of nulls. -/
def leftJoin (rows : List α) (on : α → Truth) : List (Option α) :=
  if (rows.filter fun r => on r = some true) = [] then [none]
  else (rows.filter fun r => on r = some true).map some

/-- `NULLIF(a, b)`. -/
def nullIf [DecidableEq α] (a : Option α) (b : α) : Option α := if a = some b then none else a

/-- `SUM`. -/
def sumOf (xs : List (Option ℤ)) : Option ℤ :=
  if xs.reduceOption = [] then none else some xs.reduceOption.sum

/-- `COUNT(*) FILTER (WHERE c)`. -/
def countWhere (c : α → Truth) (rows : List α) : ℕ := (rows.filter fun r => c r = some true).length

/-! ### Scalars -/

@[simp] theorem caseWhen_true (a b : Option α) : caseWhen (some true) a b = a := if_pos rfl

@[simp] theorem caseWhen_false (a b : Option α) : caseWhen (some false) a b = b :=
  if_neg fun h => Bool.false_ne_true (Option.some.inj h)

@[simp] theorem caseWhen_decide (p : Prop) [Decidable p] (a b : Option α) :
    caseWhen (some (decide p)) a b = if p then a else b := by
  by_cases h : p <;> simp [h]

@[simp] theorem and3_false (c : Truth) : and3 (some false) c = some false := rfl

@[simp] theorem not3_some (b : Bool) : not3 (some b) = some !b := rfl

theorem or3_eq_true {c d : Truth} : or3 c d = some true ↔ c = some true ∨ d = some true := by
  rcases c with _ | _ | _ <;> rcases d with _ | _ | _ <;> simp [or3]

theorem and3_eq_true {c d : Truth} : and3 c d = some true ↔ c = some true ∧ d = some true := by
  rcases c with _ | _ | _ <;> rcases d with _ | _ | _ <;> simp [and3]

@[simp] theorem greatest_some (a b : ℤ) : greatest (some a) (some b) = some (max a b) := rfl

@[simp] theorem greater_some (a b : ℤ) : greater (some a) (some b) = some (decide (b < a)) := rfl

/-! ### Arrays and joins -/

theorem overlaps_eq_true [DecidableEq α] {column : Option (List (Option α))} {values : List α} :
    overlaps column values = some true ↔ ∃ elements, column = some elements ∧
      ∃ v ∈ values, some v ∈ elements := by
  cases column with
  | none => simp [overlaps]
  | some elements => simp [overlaps]

theorem covers_eq_true [DecidableEq α] {column : Option (List (Option α))} {values : List α} :
    covers column values = some true ↔ ∃ elements, column = some elements ∧
      ∀ v ∈ values, some v ∈ elements := by
  cases column with
  | none => simp [covers]
  | some elements => simp [covers]

theorem some_mem_leftJoin {rows : List α} {on : α → Truth} {r : α} :
    some r ∈ leftJoin rows on ↔ r ∈ rows ∧ on r = some true := by
  unfold leftJoin
  by_cases h : (rows.filter fun r => on r = some true) = []
  · rw [if_pos h]
    have hnone := List.filter_eq_nil_iff.mp h
    simp only [decide_eq_true_eq] at hnone
    simp only [List.mem_singleton, reduceCtorEq, false_iff, not_and]
    exact fun hr => hnone r hr
  · rw [if_neg h]
    simp

/-- **A left join loses no row.** -/
theorem leftJoin_ne_nil (rows : List α) (on : α → Truth) : leftJoin rows on ≠ [] := by
  unfold leftJoin
  by_cases h : (rows.filter fun r => on r = some true) = []
  · rw [if_pos h]
    exact List.cons_ne_nil _ _
  · rw [if_neg h]
    exact fun hnil => h (List.map_eq_nil_iff.mp hnil)

/-! ### Aggregates -/

theorem maxOf_eq_none {xs : List ℤ} : maxOf xs = none ↔ xs = [] := by
  cases xs with
  | nil => simp [maxOf]
  | cons x xs =>
      have hsome : maxOf (x :: xs) = greatest (some x) (maxOf xs) := rfl
      rw [hsome]
      cases maxOf xs with
      | none => simp [greatest]
      | some m => simp

@[simp] theorem sumOf_nil : sumOf [] = none := rfl

theorem sum_reduceOption (xs : List (Option ℤ)) :
    xs.reduceOption.sum = (xs.map fun x => x.getD 0).sum := by
  induction xs with
  | nil => rfl
  | cons x xs ih =>
      cases x with
      | none =>
          rw [List.reduceOption_cons_of_none, ih, List.map_cons, List.sum_cons]
          exact (zero_add _).symm
      | some n =>
          rw [List.reduceOption_cons_of_some, List.sum_cons, ih, List.map_cons, List.sum_cons]
          rfl

/-- **`MAX` is the largest of the values.** -/
theorem maxOf_eq_some {xs : List ℤ} {m : ℤ} : maxOf xs = some m ↔ m ∈ xs ∧ ∀ x ∈ xs, x ≤ m := by
  induction xs generalizing m with
  | nil => simp [maxOf]
  | cons x xs ih =>
      have hcons : maxOf (x :: xs) = greatest (some x) (maxOf xs) := rfl
      rw [hcons]
      cases hrest : maxOf xs with
      | none =>
          rw [maxOf_eq_none] at hrest
          subst hrest
          simp only [greatest, Option.some.injEq, List.mem_singleton]
          exact ⟨fun h => ⟨h.symm, fun y hy => by omega⟩, fun h => h.1.symm⟩
      | some n =>
          obtain ⟨hmem, hmax⟩ := ih.mp hrest
          simp only [greatest_some, Option.some.injEq, List.mem_cons, forall_eq_or_imp]
          constructor
          · rintro rfl
            refine ⟨?_, le_max_left _ _, fun y hy => (hmax y hy).trans (le_max_right _ _)⟩
            rcases max_choice x n with h | h
            · exact .inl h
            · exact .inr (by rw [h]; exact hmem)
          · rintro ⟨hm, hx, hall⟩
            refine le_antisymm (max_le hx (hall n hmem)) ?_
            rcases hm with rfl | hm
            · exact le_max_left _ _
            · exact (hmax m hm).trans (le_max_right _ _)

/-- **`COALESCE(SUM(x), 0)` adds up the terms that are there.** -/
theorem sumOf_getD (xs : List (Option ℤ)) : (sumOf xs).getD 0 = (xs.map fun x => x.getD 0).sum := by
  rw [← sum_reduceOption]
  unfold sumOf
  split
  · rename_i hempty
    rw [hempty]
    rfl
  · rfl

@[simp] theorem countWhere_nil (c : α → Truth) : countWhere c [] = 0 := rfl

theorem countWhere_cons (c : α → Truth) (r : α) (rows : List α) :
    countWhere c (r :: rows) = (if c r = some true then 1 else 0) + countWhere c rows := by
  unfold countWhere
  rw [List.filter_cons]
  by_cases h : c r = some true
  · simp [h, Nat.add_comm]
  · simp [h]

theorem countWhere_congr {c d : α → Truth} {rows : List α}
    (h : ∀ r ∈ rows, c r = some true ↔ d r = some true) : countWhere c rows = countWhere d rows := by
  unfold countWhere
  congr 1
  apply List.filter_congr
  intro r hr
  rw [decide_eq_decide]
  exact h r hr

/-- **A condition that is never null splits the rows.** -/
theorem countWhere_split {c : α → Truth} {rows : List α} (h : ∀ r ∈ rows, c r ≠ none) :
    countWhere c rows + countWhere (fun r => not3 (c r)) rows = rows.length := by
  induction rows with
  | nil => rfl
  | cons r rows ih =>
      have hrest := ih fun x hx => h x (List.mem_cons_of_mem _ hx)
      obtain ⟨b, hb⟩ := Option.ne_none_iff_exists'.mp (h r List.mem_cons_self)
      rw [countWhere_cons, countWhere_cons, hb, List.length_cons]
      cases b <;> simp <;> omega

end TransportBackend.NullLogic
