import Mathlib.Order.Interval.Set.Disjoint
import Mathlib.Tactic

/-!
# Periods that follow one another

A half-open period over any linear order, and lists of periods no two of which share a moment.  A
service that grants periods one at a time keeps such a list disjoint by starting each new period
where nothing it has to follow is still running:

* `apart_of_stop_le` — a period that starts where another has stopped is disjoint from it;
* `Separate.cons` — **a period that starts after every other has stopped may join the list**;
* `Separate.perm` — the order of the list is of no importance;
* `Chained` — periods (latest first) that start where an earlier one stops, or have started;
* `Linked`, `Linked.running` — periods that are only linked so, and **that they run until the last one stops**;
* `ncard_covered` — separate periods cover as many moments as they last together.
-/

namespace TransportBackend.PeriodChain

variable {α : Type} [LinearOrder α]

/-- From `start`, up to and not including `stop`. -/
structure Period (α : Type) where
  start : α
  stop : α

/-- The moments of a period. -/
def Period.moments (p : Period α) : Set α := Set.Ico p.start p.stop

/-- No moment lies in both periods. -/
def Apart (p q : Period α) : Prop := p.moments ∩ q.moments = ∅

theorem apart_iff {p q : Period α} : Apart p q ↔ min p.stop q.stop ≤ max p.start q.start :=
  Set.disjoint_iff_inter_eq_empty.symm.trans Set.Ico_disjoint_Ico

instance (p q : Period α) : Decidable (Apart p q) := decidable_of_iff _ apart_iff.symm

theorem Apart.symm {p q : Period α} (h : Apart p q) : Apart q p := (Set.inter_comm _ _).trans h

theorem apart_of_stop_le {p q : Period α} (h : p.stop ≤ q.start) : Apart p q :=
  apart_iff.mpr ((min_le_left _ _).trans (h.trans (le_max_right _ _)))

/-- No two periods of the list share a moment. -/
def Separate (ps : List (Period α)) : Prop := ps.Pairwise Apart

instance (ps : List (Period α)) : Decidable (Separate ps) :=
  inferInstanceAs (Decidable (ps.Pairwise Apart))

theorem Separate.cons {p : Period α} {ps : List (Period α)} (h : Separate ps)
    (hafter : ∀ q ∈ ps, q.stop ≤ p.start) : Separate (p :: ps) := by
  refine List.pairwise_cons.mpr ⟨?_, h⟩
  intro q hq
  exact (apart_of_stop_le (hafter q hq)).symm

theorem Separate.perm {ps qs : List (Period α)} (h : Separate ps) (hperm : ps.Perm qs) :
    Separate qs :=
  (hperm.pairwise_iff fun h => Apart.symm h).mp h

/-! ### Chains -/

/-- The periods, latest first: no earlier one stops after the start of a later one, and each has started by now or
starts where an earlier one stops. -/
def Chained (now : α) : List (Period α) → Prop
  | [] => True
  | p :: ps => Chained now ps ∧ p.start ≤ p.stop ∧ (∀ q ∈ ps, q.stop ≤ p.start) ∧
      (p.start ≤ now ∨ ∃ q ∈ ps, q.stop = p.start)

variable {now : α} {ps : List (Period α)}

theorem Chained.separate (h : Chained now ps) : Separate ps := by
  induction ps with
  | nil => exact List.Pairwise.nil
  | cons p ps ih => exact (ih h.1).cons h.2.2.1

theorem Chained.lasts (h : Chained now ps) : ∀ p ∈ ps, p.start ≤ p.stop := by
  induction ps with
  | nil => exact fun _ hp => absurd hp List.not_mem_nil
  | cons p ps ih =>
      intro q hq
      rcases List.mem_cons.mp hq with rfl | hq
      · exact h.2.1
      · exact ih h.1 q hq

/-- The periods, latest first: each has started by now or starts where an earlier one stops. -/
def Linked (now : α) : List (Period α) → Prop
  | [] => True
  | p :: ps => Linked now ps ∧ (p.start ≤ now ∨ ∃ q ∈ ps, q.stop = p.start)

theorem Chained.linked (h : Chained now ps) : Linked now ps := by
  induction ps with
  | nil => exact trivial
  | cons p ps ih => exact ⟨ih h.1, h.2.2.2⟩

theorem Linked.mono {later : α} (h : Linked now ps) (hle : now ≤ later) : Linked later ps := by
  induction ps with
  | nil => exact trivial
  | cons p ps ih => exact ⟨ih h.1, h.2.imp_left fun hstart => hstart.trans hle⟩

/-- Periods linked to those of a list may join it. -/
theorem Linked.append {qs : List (Period α)} (h : Linked now ps)
    (hqs : ∀ q ∈ qs, q.start ≤ now ∨ ∃ p ∈ ps, p.stop = q.start) : Linked now (qs ++ ps) := by
  induction qs with
  | nil => exact h
  | cons q qs ih =>
      refine ⟨ih fun r hr => hqs r (List.mem_cons_of_mem q hr), (hqs q List.mem_cons_self).imp_right ?_⟩
      rintro ⟨p, hp, hstop⟩
      exact ⟨p, List.mem_append_right qs hp, hstop⟩

/-- **Linked periods that have not ended run**: before the stop of any of them there is one at every moment from
now on. -/
theorem Linked.running (h : Linked now ps) {t : α} (ht : now ≤ t) {e : Period α} (he : e ∈ ps) (hend : t < e.stop) :
    ∃ r ∈ ps, r.start ≤ t ∧ t < r.stop := by
  induction ps generalizing e with
  | nil => exact absurd he List.not_mem_nil
  | cons p ps ih =>
      obtain ⟨hrest, hstart⟩ := h
      have hlater : ∀ q ∈ ps, t < q.stop → ∃ r ∈ p :: ps, r.start ≤ t ∧ t < r.stop := by
        intro q hq hlt
        obtain ⟨r, hr, hruns⟩ := ih hrest hq hlt
        exact ⟨r, List.mem_cons_of_mem p hr, hruns⟩
      rcases List.mem_cons.mp he with rfl | he
      · rcases le_or_gt e.start t with hle | hgt
        · exact ⟨e, List.mem_cons_self, hle, hend⟩
        · -- it waits behind another one
          obtain ⟨q, hq, hstop⟩ := hstart.resolve_left fun hle => absurd (hle.trans ht) (not_le.mpr hgt)
          exact hlater q hq (hstop ▸ hgt)
      · exact hlater e he hend

/-! ### How long periods last -/

/-- The moments in some period of the list. -/
def covered (ps : List (Period α)) : Set α := {t | ∃ p ∈ ps, t ∈ p.moments}

theorem covered_cons (p : Period α) (ps : List (Period α)) : covered (p :: ps) = p.moments ∪ covered ps := by
  ext t
  simp [covered]

theorem finite_covered (ps : List (Period ℤ)) : (covered ps).Finite := by
  induction ps with
  | nil => exact Set.finite_empty.subset fun t ht => absurd ht (by simp [covered])
  | cons p ps ih =>
      rw [covered_cons]
      exact (Set.finite_Ico p.start p.stop).union ih

/-- **Separate periods cover as many moments as they last together.** -/
theorem ncard_covered {ps : List (Period ℤ)} (h : Separate ps) (hle : ∀ p ∈ ps, p.start ≤ p.stop) :
    ((covered ps).ncard : ℤ) = (ps.map fun p => p.stop - p.start).sum := by
  induction ps with
  | nil =>
      have hempty : covered ([] : List (Period ℤ)) = ∅ := by simp [covered]
      rw [hempty, Set.ncard_empty]
      rfl
  | cons p ps ih =>
      obtain ⟨hp, hps⟩ := List.pairwise_cons.mp h
      have hdisjoint : Disjoint p.moments (covered ps) := by
        rw [Set.disjoint_left]
        rintro t ht ⟨q, hq, htq⟩
        have hboth : t ∈ p.moments ∩ q.moments := ⟨ht, htq⟩
        rw [hp q hq] at hboth
        exact hboth
      have hone : (p.moments.ncard : ℤ) = p.stop - p.start := by
        have hset : p.moments = (Finset.Ico p.start p.stop : Finset ℤ) := (Finset.coe_Ico p.start p.stop).symm
        rw [hset, Set.ncard_coe_finset, Int.card_Ico]
        exact Int.toNat_of_nonneg (by linarith [hle p List.mem_cons_self])
      have hunion := Set.ncard_union_eq hdisjoint (Set.finite_Ico p.start p.stop) (finite_covered ps)
      rw [covered_cons, hunion, Nat.cast_add, hone, ih hps fun q hq => hle q (List.mem_cons_of_mem p hq)]
      rfl

end TransportBackend.PeriodChain
