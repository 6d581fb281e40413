import Mathlib.Algebra.Order.Floor.Semiring
import Mathlib.Data.List.Pairwise
import Mathlib.Tactic.Linarith

/-!
# Times that keep a distance

Times listed from the latest to the first, each at least a gap behind the ones before it.  A period as long as
so many gaps holds one time more than that.

* `Spaced`: the gap is kept;
* `Spaced.span`: so many gaps lie between the first time and the latest;
* `Spaced.window`: **how many times a period holds**.
-/

namespace TransportBackend.SpacedTimes

variable {K : Type*} [Field K] [LinearOrder K]

/-- Every time is at least a gap behind each earlier one. -/
def Spaced (gap : K) (times : List K) : Prop := times.Pairwise fun later earlier => earlier + gap ≤ later

variable {gap : K} {times : List K}

theorem Spaced.filter (h : Spaced gap times) (p : K → Bool) : Spaced gap (times.filter p) :=
  List.Pairwise.filter p h

variable [IsStrictOrderedRing K]

/-- So many gaps lie between any time and the latest as there are times between them. -/
theorem Spaced.span {t : K} (h : Spaced gap (t :: times)) :
    (t :: times).getLast (List.cons_ne_nil t times) + times.length * gap ≤ t := by
  induction times generalizing t with
  | nil => simp
  | cons u times ih =>
      obtain ⟨hfirst, hrest⟩ := List.pairwise_cons.mp h
      have hstep : u + gap ≤ t := hfirst u List.mem_cons_self
      have hspan := ih hrest
      have hlast : (t :: u :: times).getLast (List.cons_ne_nil t _) = (u :: times).getLast (List.cons_ne_nil u times) :=
        List.getLast_cons (List.cons_ne_nil u times)
      have hlength : ((u :: times).length : K) = times.length + 1 := by
        rw [List.length_cons]
        push_cast
        rfl
      rw [hlast, hlength]
      linarith

variable [FloorSemiring K]

/-- **How many times a period holds**: one more than there are gaps in it. -/
theorem Spaced.window (hgap : 0 < gap) (h : Spaced gap times) (start : K) {period : K} :
    (times.filter fun t => decide (start ≤ t ∧ t ≤ start + period)).length ≤ ⌊period / gap⌋₊ + 1 := by
  have hwithin := h.filter fun t => decide (start ≤ t ∧ t ≤ start + period)
  have hmem : ∀ t ∈ times.filter (fun t => decide (start ≤ t ∧ t ≤ start + period)), start ≤ t ∧ t ≤ start + period :=
    fun t ht => of_decide_eq_true (List.mem_filter.mp ht).2
  revert hwithin hmem
  generalize times.filter (fun t => decide (start ≤ t ∧ t ≤ start + period)) = within
  intro hwithin hmem
  cases within with
  | nil => exact Nat.zero_le _
  | cons t rest =>
      have hspan := hwithin.span
      have hfirst := (hmem _ (List.getLast_mem (List.cons_ne_nil t rest))).1
      have hlatest := (hmem t List.mem_cons_self).2
      have hgaps : (rest.length : K) ≤ period / gap := by
        rw [le_div_iff₀ hgap]
        linarith
      have hfloor : rest.length ≤ ⌊period / gap⌋₊ := Nat.le_floor hgaps
      rw [List.length_cons]
      omega

end TransportBackend.SpacedTimes
