import Mathlib.Tactic

/-!
# Operations one after another, at times that do not go back

A system whose operations run whole, one at a time, each at a moment not before the last one.  What is
said about the past (when was this row written, what was in force then) is a function of the moments,
latest first, so the state needs no extra field for it.

* `Timeline` — the histories of a step function, with their moments;
* `Timeline.invariant` — **the induction over a history, done once**;
* `Timeline.time_le` — every moment is at or before the end;
* `replay`, `replay_timeline` — a schedule replayed is a history.
-/

namespace TransportBackend.SequentialRun

variable {Op σ : Type}

/-- One operation of a history: when it ran and the state before and after it. -/
structure Moment (Op σ : Type) where
  time : ℕ
  op : Op
  before : σ
  after : σ

/-- The time of the latest moment. -/
def lastTime (t₀ : ℕ) : List (Moment Op σ) → ℕ
  | [] => t₀
  | m :: _ => m.time

/-- The histories from `s₀` at time `t₀`, with their moments (latest first). -/
inductive Timeline (step : ℕ → Op → σ → σ) (t₀ : ℕ) (s₀ : σ) : List (Moment Op σ) → σ → Prop where
  | nil : Timeline step t₀ s₀ [] s₀
  | snoc {past : List (Moment Op σ)} {s : σ} {t : ℕ} {op : Op} :
      Timeline step t₀ s₀ past s → lastTime t₀ past ≤ t →
        Timeline step t₀ s₀ (⟨t, op, s, step t op s⟩ :: past) (step t op s)

variable {step : ℕ → Op → σ → σ} {t₀ : ℕ} {s₀ s : σ} {past : List (Moment Op σ)}

/-- **The invariant rule of a history.** -/
theorem Timeline.invariant (I : List (Moment Op σ) → σ → Prop) (h0 : I [] s₀)
    (hstep : ∀ past s t op, Timeline step t₀ s₀ past s → I past s → lastTime t₀ past ≤ t →
      I (⟨t, op, s, step t op s⟩ :: past) (step t op s))
    (h : Timeline step t₀ s₀ past s) : I past s := by
  induction h with
  | nil => exact h0
  | snoc hrun ht ih => exact hstep _ _ _ _ hrun ih ht

/-- A history is not before its start. -/
theorem Timeline.start_le (h : Timeline step t₀ s₀ past s) : t₀ ≤ lastTime t₀ past := by
  induction h with
  | nil => exact le_refl _
  | snoc _ ht ih => exact ih.trans ht

/-- Every moment of a history is at or before its end. -/
theorem Timeline.time_le (h : Timeline step t₀ s₀ past s) : ∀ m ∈ past, m.time ≤ lastTime t₀ past := by
  induction h with
  | nil => exact fun m hm => absurd hm List.not_mem_nil
  | snoc _ ht ih =>
      intro m hm
      rcases List.mem_cons.mp hm with rfl | hm
      · exact le_refl _
      · exact (ih m hm).trans ht

/-! ### Replaying -/

/-- Each operation of a schedule (latest first) is not before the one before. -/
def Ordered (t₀ : ℕ) : List (ℕ × Op) → Prop
  | [] => True
  | (t, _) :: earlier => (earlier.head?.map Prod.fst).getD t₀ ≤ t ∧ Ordered t₀ earlier

instance decidableOrdered (t₀ : ℕ) : (ops : List (ℕ × Op)) → Decidable (Ordered t₀ ops)
  | [] => .isTrue trivial
  | (t, _) :: earlier =>
      match Nat.decLe ((earlier.head?.map Prod.fst).getD t₀) t, decidableOrdered t₀ earlier with
      | .isTrue h, .isTrue h' => .isTrue ⟨h, h'⟩
      | .isFalse h, _ => .isFalse fun hc => h hc.1
      | _, .isFalse h' => .isFalse fun hc => h' hc.2

/-- A schedule (latest first) replayed: its moments and the state it leaves. -/
def replay (step : ℕ → Op → σ → σ) (s₀ : σ) : List (ℕ × Op) → List (Moment Op σ) × σ
  | [] => ([], s₀)
  | (t, op) :: earlier =>
      let s := (replay step s₀ earlier).2
      (⟨t, op, s, step t op s⟩ :: (replay step s₀ earlier).1, step t op s)

theorem lastTime_replay (step : ℕ → Op → σ → σ) (t₀ : ℕ) (s₀ : σ) (ops : List (ℕ × Op)) :
    lastTime t₀ (replay step s₀ ops).1 = (ops.head?.map Prod.fst).getD t₀ := by
  cases ops <;> rfl

/-- **A replayed schedule is a history.** -/
theorem replay_timeline (step : ℕ → Op → σ → σ) (s₀ : σ) {ops : List (ℕ × Op)}
    (h : Ordered t₀ ops) :
    Timeline step t₀ s₀ (replay step s₀ ops).1 (replay step s₀ ops).2 := by
  induction ops with
  | nil => exact .nil
  | cons op earlier ih =>
      refine .snoc (ih h.2) ?_
      rw [lastTime_replay]
      exact h.1

end TransportBackend.SequentialRun
