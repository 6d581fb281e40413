import Mathlib.Data.List.Induction
import Mathlib.Order.Bounds.Basic
import Mathlib.Tactic.Linarith
import Mathlib.Tactic.NormNum

/-!
# Weighted edit distances

Words over any alphabet, a cost for each letter that is deleted or inserted, and a cost for each letter that is
replaced by another.

* `Costs`: what is asked of the costs, and that costs between one half and one have it;
* `Script`: a sequence of edits, anywhere in a word, and its cost;
* `editCost`: the plain recursion on two words;
* `editCost_isLeast`: **the recursion finds the least cost of a script**, if a detour costs no less;
* `editCost_comm`, `editCost_eq_zero`: the distance is symmetric, and zero between equal words only;
* `rowDistance`: the loop that keeps a single row of the table and overwrites it from left to right;
* `rowDistance_eq`: **the loop computes the distance** from a first row that is right.
-/

namespace TransportBackend.EditDistance

variable {α : Type}

/-! ### Costs and scripts -/

/-- Costs that are symmetric, positive between different letters, and no less by a detour. -/
structure Costs (gap : α → ℚ) (swap : α → α → ℚ) : Prop where
  gap_pos : ∀ x, 0 < gap x
  swap_nonneg : ∀ x y, 0 ≤ swap x y
  swap_zero : ∀ x y, swap x y = 0 ↔ x = y
  swap_comm : ∀ x y, swap x y = swap y x
  swap_detour : ∀ x y z, swap x z ≤ swap x y + swap y z
  gap_detour : ∀ x y, gap x ≤ swap x y + gap y

/-- Costs between one half and one: a detour costs at least one. -/
theorem costs_of_halves {gap : α → ℚ} {swap : α → α → ℚ} (hgap : ∀ x, 1 / 2 ≤ gap x ∧ gap x ≤ 1)
    (hself : ∀ x, swap x x = 0) (hother : ∀ x y, x ≠ y → 1 / 2 ≤ swap x y ∧ swap x y ≤ 1)
    (hcomm : ∀ x y, swap x y = swap y x) : Costs gap swap where
  gap_pos x := lt_of_lt_of_le (by norm_num) (hgap x).1
  swap_nonneg x y := by
    by_cases hxy : x = y
    · rw [hxy, hself]
    · exact le_trans (by norm_num) (hother x y hxy).1
  swap_zero x y := by
    constructor
    · intro hzero
      by_contra hxy
      have hhalf := (hother x y hxy).1
      linarith
    · rintro rfl
      exact hself x
  swap_comm := hcomm
  swap_detour x y z := by
    by_cases hxy : x = y
    · rw [hxy, hself, zero_add]
    · by_cases hyz : y = z
      · rw [hyz, hself, add_zero]
      · by_cases hxz : x = z
        · have hfirst := (hother x y hxy).1
          have hsecond := (hother y z hyz).1
          rw [hxz, hself]
          rw [hxz] at hfirst
          linarith
        · linarith [(hother x y hxy).1, (hother y z hyz).1, (hother x z hxz).2]
  gap_detour x y := by
    by_cases hxy : x = y
    · rw [hxy, hself, zero_add]
    · linarith [(hother x y hxy).1, (hgap x).2, (hgap y).1]

section Definitions

variable (gap : α → ℚ) (swap : α → α → ℚ)

/-- The edits that turn one word into another, in their order. -/
inductive Script : List α → List α → ℚ → Prop
  | refl {a : List α} : Script a a 0
  | delete {u v b : List α} {x : α} {c : ℚ} (h : Script (u ++ v) b c) : Script (u ++ x :: v) b (gap x + c)
  | insert {u v b : List α} {y : α} {c : ℚ} (h : Script (u ++ y :: v) b c) : Script (u ++ v) b (gap y + c)
  | replace {u v b : List α} {x y : α} {c : ℚ} (h : Script (u ++ y :: v) b c) :
      Script (u ++ x :: v) b (swap x y + c)

/-- The cheapest ways from a word that begins with a letter, given the ways from the rest of it. -/
def costFrom (x : α) (rest : List α → ℚ) : List α → ℚ
  | [] => gap x + rest []
  | y :: b => min (min (gap x + rest (y :: b)) (gap y + costFrom x rest b)) (swap x y + rest b)

/-- The cheapest way to turn the first word into the second, from their first letters on. -/
def editCost : List α → List α → ℚ
  | [], b => (b.map gap).sum
  | x :: a, b => costFrom gap swap x (editCost a) b

end Definitions

variable {gap : α → ℚ} {swap : α → α → ℚ}

theorem editCost_nil (a : List α) : editCost gap swap a [] = (a.map gap).sum := by
  induction a with
  | nil => rfl
  | cons x a ih => rw [editCost, costFrom, ih, List.map_cons, List.sum_cons]

theorem nil_editCost (b : List α) : editCost gap swap [] b = (b.map gap).sum := rfl

theorem editCost_cons (x : α) (a : List α) (y : α) (b : List α) : editCost gap swap (x :: a) (y :: b) =
    min (min (gap x + editCost gap swap a (y :: b)) (gap y + editCost gap swap (x :: a) b))
      (swap x y + editCost gap swap a b) := rfl

/-- What is below all three ways is below the cheapest. -/
theorem le_editCost_cons {x y : α} {a b : List α} {c : ℚ} (hdelete : c ≤ gap x + editCost gap swap a (y :: b))
    (hinsert : c ≤ gap y + editCost gap swap (x :: a) b) (hreplace : c ≤ swap x y + editCost gap swap a b) :
    c ≤ editCost gap swap (x :: a) (y :: b) := by
  rw [editCost_cons]
  exact le_min (le_min hdelete hinsert) hreplace

/-! ### One edit -/

theorem editCost_delete (gap : α → ℚ) (swap : α → α → ℚ) (x : α) (a b : List α) :
    editCost gap swap (x :: a) b ≤ gap x + editCost gap swap a b := by
  cases b with
  | nil => exact le_refl _
  | cons y b =>
      rw [editCost_cons]
      exact (min_le_left _ _).trans (min_le_left _ _)

theorem editCost_insert (gap : α → ℚ) (swap : α → α → ℚ) (y : α) (a b : List α) :
    editCost gap swap a (y :: b) ≤ gap y + editCost gap swap a b := by
  cases a with
  | nil => rw [nil_editCost, nil_editCost, List.map_cons, List.sum_cons]
  | cons x a =>
      rw [editCost_cons]
      exact (min_le_left _ _).trans (min_le_right _ _)

theorem editCost_replace (gap : α → ℚ) (swap : α → α → ℚ) (x y : α) (a b : List α) :
    editCost gap swap (x :: a) (y :: b) ≤ swap x y + editCost gap swap a b := by
  rw [editCost_cons]
  exact min_le_right _ _

/-- What one edit saves at most, it saves at most behind a letter too. -/
theorem editCost_under {s t : List α} {c : ℚ} (hedit : ∀ b, editCost gap swap s b ≤ c + editCost gap swap t b)
    (w : α) (b : List α) : editCost gap swap (w :: s) b ≤ c + editCost gap swap (w :: t) b := by
  induction b with
  | nil =>
      have hrest := hedit []
      have hw : ∀ l, editCost gap swap (w :: l) [] = gap w + editCost gap swap l [] := fun _ => rfl
      rw [hw, hw]
      linarith
  | cons y b ihb =>
      have hdelete := hedit (y :: b)
      have hreplace := hedit b
      have hd := editCost_delete gap swap w s (y :: b)
      have hi := editCost_insert gap swap y (w :: s) b
      have hr := editCost_replace gap swap w y s b
      rw [← sub_le_iff_le_add']
      exact le_editCost_cons (by linarith) (by linarith) (by linarith)

theorem editCost_behind {s t : List α} {c : ℚ} (hedit : ∀ b, editCost gap swap s b ≤ c + editCost gap swap t b)
    (u b : List α) : editCost gap swap (u ++ s) b ≤ c + editCost gap swap (u ++ t) b := by
  induction u generalizing b with
  | nil => exact hedit b
  | cons w u ih => exact editCost_under ih w b

section Scripts

variable (h : Costs gap swap)
include h

theorem editCost_nonneg (a b : List α) : 0 ≤ editCost gap swap a b := by
  have hsum : ∀ l : List α, 0 ≤ (l.map gap).sum := by
    intro l
    induction l with
    | nil => exact le_refl 0
    | cons x l ih =>
        rw [List.map_cons, List.sum_cons]
        have := h.gap_pos x
        linarith
  induction a generalizing b with
  | nil =>
      rw [nil_editCost]
      exact hsum b
  | cons x a iha =>
      induction b with
      | nil =>
          rw [editCost_nil]
          exact hsum (x :: a)
      | cons y b ihb =>
          have hx := h.gap_pos x
          have hy := h.gap_pos y
          have hxy := h.swap_nonneg x y
          have hdelete := iha (y :: b)
          have hreplace := iha b
          exact le_editCost_cons (by linarith) (by linarith) (by linarith)

/-- An inserted letter is no shortcut. -/
theorem insert_first (y : α) (a b : List α) : editCost gap swap a b ≤ gap y + editCost gap swap (y :: a) b := by
  have hy := h.gap_pos y
  induction b with
  | nil =>
      have hdelete : editCost gap swap (y :: a) [] = gap y + editCost gap swap a [] := rfl
      linarith
  | cons z b ih =>
      have hz := h.gap_detour z y
      have hcomm := h.swap_comm y z
      have hinsert := editCost_insert gap swap z a b
      rw [← sub_le_iff_le_add']
      exact le_editCost_cons (by linarith) (by linarith) (by linarith)

/-- Nor is a letter in another's place. -/
theorem replace_first (x y : α) (a b : List α) :
    editCost gap swap (x :: a) b ≤ swap x y + editCost gap swap (y :: a) b := by
  have hx := h.gap_detour x y
  induction b with
  | nil =>
      have hdelete : ∀ w, editCost gap swap (w :: a) [] = gap w + editCost gap swap a [] := fun _ => rfl
      rw [hdelete, hdelete]
      linarith
  | cons z b ih =>
      have hz := h.swap_detour x y z
      have hd := editCost_delete gap swap x a (z :: b)
      have hi := editCost_insert gap swap z (x :: a) b
      have hr := editCost_replace gap swap x z a b
      rw [← sub_le_iff_le_add']
      exact le_editCost_cons (by linarith) (by linarith) (by linarith)

theorem editCost_self (a : List α) : editCost gap swap a a = 0 := by
  induction a with
  | nil => rfl
  | cons x a ih =>
      have hreplace := editCost_replace gap swap x x a a
      rw [(h.swap_zero x x).mpr rfl, ih, zero_add] at hreplace
      exact le_antisymm hreplace (editCost_nonneg h _ _)

/-- No script costs less. -/
theorem editCost_le {a b : List α} {c : ℚ} (hscript : Script gap swap a b c) : editCost gap swap a b ≤ c := by
  induction hscript with
  | refl => exact (editCost_self h _).le
  | @delete u v b x c _ ih => exact (editCost_behind (editCost_delete gap swap x v) u b).trans (by linarith)
  | @insert u v b y c _ ih => exact (editCost_behind (insert_first h y v) u b).trans (by linarith)
  | @replace u v b x y c _ ih => exact (editCost_behind (replace_first h x y v) u b).trans (by linarith)

omit h in
theorem editCost_cases (x y : α) (a b : List α) :
    editCost gap swap (x :: a) (y :: b) = gap x + editCost gap swap a (y :: b) ∨
      editCost gap swap (x :: a) (y :: b) = gap y + editCost gap swap (x :: a) b ∨
      editCost gap swap (x :: a) (y :: b) = swap x y + editCost gap swap a b := by
  rw [editCost_cons]
  rcases min_choice (min (gap x + editCost gap swap a (y :: b)) (gap y + editCost gap swap (x :: a) b))
    (swap x y + editCost gap swap a b) with hmin | hmin
  · rcases min_choice (gap x + editCost gap swap a (y :: b)) (gap y + editCost gap swap (x :: a) b) with h | h
    · exact .inl (hmin.trans h)
    · exact .inr (.inl (hmin.trans h))
  · exact .inr (.inr hmin)

omit h in
/-- The recursion is a script, behind letters that stay. -/
theorem script_editCost (gap : α → ℚ) (swap : α → α → ℚ) (u a b : List α) :
    Script gap swap (u ++ a) (u ++ b) (editCost gap swap a b) := by
  have hmove : ∀ (u : List α) (y : α) (l : List α), u ++ y :: l = (u ++ [y]) ++ l := by simp
  induction a generalizing u b with
  | nil =>
      induction b generalizing u with
      | nil => exact .refl
      | cons y b ihb =>
          have hrest := ihb (u ++ [y])
          rw [← hmove, ← hmove] at hrest
          exact .insert hrest
  | cons x a iha =>
      induction b generalizing u with
      | nil => exact .delete (iha u [])
      | cons y b ihb =>
          rcases editCost_cases x y a b with hcost | hcost | hcost
          · rw [hcost]
            exact .delete (iha u (y :: b))
          · have hrest := ihb (u ++ [y])
            rw [← hmove, ← hmove] at hrest
            rw [hcost]
            exact .insert hrest
          · have hrest := iha (u ++ [y]) b
            rw [← hmove, ← hmove] at hrest
            rw [hcost]
            exact .replace hrest

/-- **The recursion finds the least cost of a script.** -/
theorem editCost_isLeast (a b : List α) : IsLeast {c | Script gap swap a b c} (editCost gap swap a b) :=
  ⟨script_editCost gap swap [] a b, fun _ hscript => editCost_le h hscript⟩

theorem editCost_comm (a b : List α) : editCost gap swap a b = editCost gap swap b a := by
  induction a generalizing b with
  | nil => rw [editCost_nil, nil_editCost]
  | cons x a iha =>
      induction b with
      | nil => rw [editCost_nil, nil_editCost]
      | cons y b ihb =>
          rw [editCost_cons, editCost_cons, iha, ihb, iha, h.swap_comm, min_comm (gap x + _)]

/-- Equal words only are at distance zero. -/
theorem editCost_eq_zero {a b : List α} : editCost gap swap a b = 0 ↔ a = b := by
  constructor
  · intro hzero
    induction a generalizing b with
    | nil =>
        cases b with
        | nil => rfl
        | cons y b =>
            have hy := h.gap_pos y
            have hrest := editCost_nonneg h [] b
            have hb : editCost gap swap [] (y :: b) = gap y + editCost gap swap [] b := rfl
            linarith
    | cons x a ih =>
        have hx := h.gap_pos x
        cases b with
        | nil =>
            have hrest := editCost_nonneg h a []
            have ha : editCost gap swap (x :: a) [] = gap x + editCost gap swap a [] := rfl
            linarith
        | cons y b =>
            have hy := h.gap_pos y
            have hxy := h.swap_nonneg x y
            have hdelete := editCost_nonneg h a (y :: b)
            have hinsert := editCost_nonneg h (x :: a) b
            have hreplace := editCost_nonneg h a b
            rcases editCost_cases x y a b with hcost | hcost | hcost
            · linarith
            · linarith
            · rw [(h.swap_zero x y).mp (by linarith), ih (by linarith)]
  · rintro rfl
    exact editCost_self h a

omit h in
/-- A script can be carried out from the other end. -/
theorem Script.reverse {a b : List α} {c : ℚ} (hscript : Script gap swap a b c) :
    Script gap swap a.reverse b.reverse c := by
  induction hscript with
  | refl => exact .refl
  | @delete u v b x c _ ih =>
      have hx : (u ++ x :: v).reverse = v.reverse ++ x :: u.reverse := by simp
      rw [List.reverse_append] at ih
      rw [hx]
      exact .delete ih
  | @insert u v b y c _ ih =>
      have hy : (u ++ y :: v).reverse = v.reverse ++ y :: u.reverse := by simp
      rw [hy] at ih
      rw [List.reverse_append]
      exact .insert ih
  | @replace u v b x y c _ ih =>
      have hw : ∀ w, (u ++ w :: v).reverse = v.reverse ++ w :: u.reverse := fun w => by simp
      rw [hw] at ih
      rw [hw]
      exact .replace ih

theorem editCost_reverse (a b : List α) :
    editCost gap swap a.reverse b.reverse = editCost gap swap a b := by
  have hforth := editCost_le h (script_editCost gap swap [] a b).reverse
  have hback := editCost_le h (script_editCost gap swap [] a.reverse b.reverse).reverse
  rw [List.nil_append, List.nil_append, List.reverse_reverse, List.reverse_reverse] at hback
  exact le_antisymm hforth hback

end Scripts

/-! ### A single row -/

section Rows

variable (gap : α → ℚ) (swap : α → α → ℚ)

/-- One step of the inner loop, at a letter and its place: the second part of the state is the entry that stood
before the one that is overwritten, as it was in the row above. -/
def cell (x : α) (state : List ℚ × ℚ) (letter : α × ℕ) : List ℚ × ℚ :=
  let current := state.1.getD (letter.2 + 1) 0
  (state.1.set (letter.2 + 1) (min (min (current + gap x) (state.1.getD letter.2 0 + gap letter.1))
    (state.2 + swap x letter.1)), current)

/-- One step of the outer loop, at a letter and its number. -/
def nextRow (head : ℕ → ℚ → α → ℚ) (b : List α) (row : List ℚ) (letter : α × ℕ) : List ℚ :=
  let previous := row.getD 0 0
  (b.zipIdx.foldl (cell gap swap letter.1) (row.set 0 (head letter.2 previous letter.1), previous)).1

/-- The loop over the letters of the first word, with the row it begins with. -/
def rowDistance (head : ℕ → ℚ → α → ℚ) (first : List ℚ) (a b : List α) : ℚ :=
  ((a.zipIdx 1).foldl (nextRow gap swap head b) first).getD b.length 0

/-- The entries of a row from one place to another are the costs from a word to the beginnings of another. -/
def Entries (a b : List α) (row : List ℚ) (low high : ℕ) : Prop :=
  ∀ j, low ≤ j → j < high → row.getD j 0 = editCost gap swap a (b.take j).reverse

variable {gap swap}

theorem getD_set (row : List ℚ) (i j : ℕ) (v : ℚ) (hi : i < row.length) :
    (row.set i v).getD j 0 = if i = j then v else row.getD j 0 := by
  rw [List.getD_eq_getElem?_getD, List.getD_eq_getElem?_getD, List.getElem?_set]
  split
  · rfl
  · rfl

/-- **The half-overwritten row**: behind the beginning `q` of the second word the row holds the new entries up to
there and the old ones from there on, and the old entry in between is kept. -/
theorem cells_entries {a b : List α} {x : α} {row : List ℚ} (hlength : row.length = b.length + 1)
    (hrow : Entries gap swap a b row 0 (b.length + 1)) {q r : List α} (hb : b = q ++ r) :
    let state := q.zipIdx.foldl (cell gap swap x) (row.set 0 (editCost gap swap (x :: a) []), row.getD 0 0)
    state.1.length = b.length + 1 ∧ Entries gap swap (x :: a) b state.1 0 (q.length + 1) ∧
      Entries gap swap a b state.1 (q.length + 1) (b.length + 1) ∧
      state.2 = editCost gap swap a (b.take q.length).reverse := by
  induction q using List.reverseRecOn generalizing r with
  | nil =>
      refine ⟨by rw [← hlength]; exact List.length_set, fun j _ hj => ?_, fun j hlow hj => ?_, ?_⟩
      · obtain rfl : j = 0 := Nat.lt_one_iff.mp hj
        exact (getD_set row 0 0 _ (by omega)).trans (if_pos rfl)
      · exact (getD_set row 0 j _ (by omega)).trans ((if_neg (Nat.ne_of_lt hlow)).trans (hrow j (by omega) hj))
      · exact hrow 0 (Nat.le_refl 0) (by omega)
  | append_singleton q y ih =>
      obtain ⟨hsize, hnew, hold, hkept⟩ := ih (r := y :: r) (by rw [hb, List.append_assoc]; rfl)
      have hlong : q.length + 1 ≤ b.length := by
        rw [hb, List.length_append, List.length_append, List.length_singleton]
        omega
      have htake : b.take q.length = q := by rw [hb, List.append_assoc, List.take_left]
      have htake' : b.take (q.length + 1) = q ++ [y] := by
        have h : (q ++ [y]).length = q.length + 1 := by simp
        rw [hb, ← h, List.take_left]
      rw [List.zipIdx_append, List.foldl_append]
      generalize q.zipIdx.foldl (cell gap swap x) (row.set 0 (editCost gap swap (x :: a) []), row.getD 0 0) =
        state at hsize hnew hold hkept ⊢
      have hstep : [y].zipIdx (0 + q.length) = [(y, q.length)] := by rw [Nat.zero_add]; rfl
      rw [hstep, List.foldl_cons, List.foldl_nil]
      have hcurrent := hold (q.length + 1) (Nat.le_refl _) (by omega)
      have hleft := hnew q.length (Nat.zero_le _) (Nat.lt_succ_self _)
      rw [htake', List.reverse_append, List.reverse_singleton, List.singleton_append] at hcurrent
      rw [htake] at hleft hkept
      have hvalue : min (min (state.1.getD (q.length + 1) 0 + gap x) (state.1.getD q.length 0 + gap y))
          (state.2 + swap x y) = editCost gap swap (x :: a) (y :: q.reverse) := by
        rw [editCost_cons, hcurrent, hleft, hkept, add_comm (gap x), add_comm (gap y), add_comm (swap x y)]
      have hset : ∀ j, (cell gap swap x state (y, q.length)).1.getD j 0 =
          if q.length + 1 = j then editCost gap swap (x :: a) (y :: q.reverse) else state.1.getD j 0 := by
        intro j
        rw [← hvalue]
        exact getD_set state.1 (q.length + 1) j _ (by omega)
      refine ⟨?_, fun j _ hj => ?_, fun j hlow hj => ?_, ?_⟩
      · rw [← hsize]
        exact List.length_set
      · rw [hset]
        split
        · rename_i heq
          rw [← heq, htake', List.reverse_append, List.reverse_singleton, List.singleton_append]
        · rw [List.length_append, List.length_singleton] at hj
          exact hnew j (Nat.zero_le j) (by omega)
      · rw [List.length_append, List.length_singleton] at hlow
        rw [hset, if_neg (by omega)]
        exact hold j (by omega) hj
      · rw [List.length_append, List.length_singleton, htake', List.reverse_append, List.reverse_singleton,
          List.singleton_append]
        exact hcurrent

/-- The first entry of every row is the cost of deleting what the row is about. -/
def RightHead (gap : α → ℚ) (head : ℕ → ℚ → α → ℚ) : Prop :=
  ∀ (a : List α) (x : α), head (a.length + 1) (a.map gap).sum x = gap x + (a.map gap).sum

theorem nextRow_entries {head : ℕ → ℚ → α → ℚ} (hhead : RightHead gap head) {a b : List α} {row : List ℚ}
    (hlength : row.length = b.length + 1) (hrow : Entries gap swap a b row 0 (b.length + 1)) (x : α) :
    (nextRow gap swap head b row (x, a.length + 1)).length = b.length + 1 ∧
      Entries gap swap (x :: a) b (nextRow gap swap head b row (x, a.length + 1)) 0 (b.length + 1) := by
  have hfirst : row.getD 0 0 = (a.map gap).sum := (hrow 0 (Nat.le_refl 0) (by omega)).trans (editCost_nil a)
  have hset : head (a.length + 1) (row.getD 0 0) x = editCost gap swap (x :: a) [] := by
    rw [hfirst, hhead a x, editCost_nil, List.map_cons, List.sum_cons]
  obtain ⟨hsize, hnew, _, _⟩ := cells_entries (x := x) hlength hrow (List.append_nil b).symm
  unfold nextRow
  dsimp only
  rw [hset]
  exact ⟨hsize, hnew⟩

/-- **The loop computes the distance**, from the last letters on. -/
theorem rowDistance_eq (h : Costs gap swap) {head : ℕ → ℚ → α → ℚ} (hhead : RightHead gap head) {b : List α}
    {first : List ℚ} (hlength : first.length = b.length + 1)
    (hfirst : Entries gap swap [] b first 0 (b.length + 1)) (a : List α) :
    rowDistance gap swap head first a b = editCost gap swap a b := by
  have hrows : ((a.zipIdx 1).foldl (nextRow gap swap head b) first).length = b.length + 1 ∧
      Entries gap swap a.reverse b ((a.zipIdx 1).foldl (nextRow gap swap head b) first) 0 (b.length + 1) := by
    induction a using List.reverseRecOn with
    | nil => exact ⟨hlength, hfirst⟩
    | append_singleton a x ih =>
        obtain ⟨hsize, hentries⟩ := ih
        have hstep : [x].zipIdx (1 + a.length) = [(x, a.reverse.length + 1)] := by
          rw [List.length_reverse, Nat.add_comm]
          rfl
        rw [List.zipIdx_append, List.foldl_append, hstep, List.foldl_cons, List.foldl_nil, List.reverse_append,
          List.reverse_singleton, List.singleton_append]
        exact nextRow_entries hhead hsize hentries x
  have hlast := hrows.2 b.length (Nat.zero_le _) (Nat.lt_succ_self _)
  rw [List.take_length, editCost_reverse h] at hlast
  exact hlast

end Rows

end TransportBackend.EditDistance
