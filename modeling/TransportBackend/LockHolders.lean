import Mathlib.Tactic

/-!
# Who holds which lock

Calls that take exclusive locks, each carrying a value of its own while it holds one (a row it has
read, a date it has computed).  `held` says which lock a call holds and what it carries; `locks` is
the list the store keeps.

* `Exclusive` — every lock that is held is in the list, and held by one call;
* `Exclusive.lock`, `Exclusive.carry`, `Exclusive.release` — the three things a call does with a lock;
* `update_none_eq_some`, `Exclusive.others` — what the other calls still hold once one let go;
* `Exact`, `Exact.lock`, `Exact.release` — the list is just the locks that are held, so whoever waits, waits for a
  holder.
-/

namespace TransportBackend.LockHolders

variable {ι κ α : Type} [DecidableEq ι]

/-- Every lock held is in the list, and no two calls hold one. -/
structure Exclusive (held : ι → Option (κ × α)) (locks : List κ) : Prop where
  locked : ∀ i k a, held i = some (k, a) → k ∈ locks
  alone : ∀ i j k a b, held i = some (k, a) → held j = some (k, b) → i = j

variable {held : ι → Option (κ × α)} {locks : List κ} {i : ι} {k : κ} {a : α}

omit [DecidableEq ι] in
theorem exclusive_of_none (h : ∀ i, held i = none) : Exclusive held locks := by
  constructor
  · intro i k a hi
    rw [h] at hi
    cases hi
  · intro i j k a b hi
    rw [h] at hi
    cases hi

theorem update_some_cases {j : ι} {x y : κ × α}
    (h : Function.update held i (some x) j = some y) :
    (j = i ∧ y = x) ∨ (j ≠ i ∧ held j = some y) := by
  by_cases hj : j = i
  · rw [hj, Function.update_self] at h
    exact .inl ⟨hj, (Option.some.inj h).symm⟩
  · rw [Function.update_of_ne hj] at h
    exact .inr ⟨hj, h⟩

theorem update_none_eq_some {j : ι} {y : κ × α} (h : Function.update held i none j = some y) :
    j ≠ i ∧ held j = some y := by
  by_cases hj : j = i
  · rw [hj, Function.update_self] at h
    cases h
  · rw [Function.update_of_ne hj] at h
    exact ⟨hj, h⟩

/-- **A lock nobody has** may be taken. -/
theorem Exclusive.lock (h : Exclusive held locks) (hfree : k ∉ locks) (a : α) :
    Exclusive (Function.update held i (some (k, a))) (k :: locks) := by
  have hothers : ∀ j b, held j ≠ some (k, b) := fun j b hj => hfree (h.locked j k b hj)
  constructor
  · intro j l b hj
    rcases update_some_cases hj with ⟨_, heq⟩ | ⟨_, hj⟩
    · cases heq
      exact List.mem_cons_self
    · exact List.mem_cons_of_mem _ (h.locked j l b hj)
  · intro j j' l b b' hj hj'
    rcases update_some_cases hj with ⟨hi, heq⟩ | ⟨_, hbefore⟩ <;>
      rcases update_some_cases hj' with ⟨hi', heq'⟩ | ⟨_, hbefore'⟩
    · rw [hi, hi']
    · cases heq
      exact absurd hbefore' (hothers j' b')
    · cases heq'
      exact absurd hbefore (hothers j b)
    · exact h.alone j j' l b b' hbefore hbefore'

/-- The holder carries another value. -/
theorem Exclusive.carry (h : Exclusive held locks) (hheld : held i = some (k, a)) (b : α) :
    Exclusive (Function.update held i (some (k, b))) locks := by
  have hbefore : ∀ j l c, Function.update held i (some (k, b)) j = some (l, c) →
      ∃ d, held j = some (l, d) := by
    intro j l c hj
    rcases update_some_cases hj with ⟨rfl, heq⟩ | ⟨_, hj⟩
    · cases heq
      exact ⟨a, hheld⟩
    · exact ⟨c, hj⟩
  constructor
  · intro j l c hj
    obtain ⟨d, hd⟩ := hbefore j l c hj
    exact h.locked j l d hd
  · intro j j' l c c' hj hj'
    obtain ⟨d, hd⟩ := hbefore j l c hj
    obtain ⟨d', hd'⟩ := hbefore j' l c' hj'
    exact h.alone j j' l d d' hd hd'

/-- The others hold other locks. -/
theorem Exclusive.others (h : Exclusive held locks) (hheld : held i = some (k, a)) {j : ι} {l : κ}
    {b : α} (hj : Function.update held i none j = some (l, b)) : held j = some (l, b) ∧ l ≠ k := by
  obtain ⟨hne, hj⟩ := update_none_eq_some hj
  refine ⟨hj, ?_⟩
  rintro rfl
  exact hne (h.alone j i l b a hj hheld)

/-- **The holder lets go.** -/
theorem Exclusive.release [DecidableEq κ] (h : Exclusive held locks)
    (hheld : held i = some (k, a)) : Exclusive (Function.update held i none) (locks.erase k) := by
  constructor
  · intro j l b hj
    obtain ⟨hj, hne⟩ := h.others hheld hj
    exact (List.mem_erase_of_ne hne).mpr (h.locked j l b hj)
  · intro j j' l b b' hj hj'
    exact h.alone j j' l b b' (h.others hheld hj).1 (h.others hheld hj').1

/-- The list is just the locks that are held, each once. -/
structure Exact (held : ι → Option (κ × α)) (locks : List κ) : Prop extends Exclusive held locks where
  nodup : locks.Nodup
  owned : ∀ k ∈ locks, ∃ i a, held i = some (k, a)

omit [DecidableEq ι] in
theorem exact_of_none (h : ∀ i, held i = none) : Exact held [] :=
  { exclusive_of_none h with
    nodup := List.nodup_nil
    owned := fun _ hk => absurd hk List.not_mem_nil }

theorem Exact.lock (h : Exact held locks) (hnone : held i = none) (hfree : k ∉ locks) (a : α) :
    Exact (Function.update held i (some (k, a))) (k :: locks) := by
  refine { h.toExclusive.lock hfree a with nodup := List.nodup_cons.mpr ⟨hfree, h.nodup⟩, owned := ?_ }
  intro l hl
  rcases List.mem_cons.mp hl with rfl | hl
  · exact ⟨i, a, Function.update_self i _ held⟩
  · obtain ⟨j, b, hj⟩ := h.owned l hl
    have hne : j ≠ i := by
      rintro rfl
      rw [hnone] at hj
      cases hj
    exact ⟨j, b, (Function.update_of_ne hne _ held).trans hj⟩

theorem Exact.release [DecidableEq κ] (h : Exact held locks) (hheld : held i = some (k, a)) :
    Exact (Function.update held i none) (locks.erase k) := by
  refine { h.toExclusive.release hheld with nodup := h.nodup.erase k, owned := ?_ }
  intro l hl
  obtain ⟨hne, hl⟩ := h.nodup.mem_erase_iff.mp hl
  obtain ⟨j, b, hj⟩ := h.owned l hl
  have hother : j ≠ i := by
    rintro rfl
    rw [hheld] at hj
    exact hne (Prod.mk.inj (Option.some.inj hj)).1.symm
  exact ⟨j, b, (Function.update_of_ne hother _ held).trans hj⟩

end TransportBackend.LockHolders
