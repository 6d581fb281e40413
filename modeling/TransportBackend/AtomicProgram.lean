import Mathlib.Tactic

/-!
# Programs over atomic commands

A service method of an asynchronous server is a straight piece of code between two awaits.  This
file gives such methods one syntax, independent of any server: a program either returns, throws,
or issues one **command** and goes on with its response.  The same program text then has two
readings:

* `Prog.run` — the method run alone, every command executed at once after the other;
* `Within` — what every command of the program satisfies **whatever happens to the shared store
  between its commands**, when each response is only known to satisfy `post`.

The second reading is the one a concurrent run needs: it speaks of the values a method carries
in its own memory and of nothing else, so no step of another method can break it.

* `After` — what holds after a run, with one rule for each form of program (`after_bind`,
  `after_refuseIf`, the loop rule `after_forEach`), so a method is taken apart by `simp`;
* `within_bind`, `within_forEach` — the same rules for the discipline (`Within`).
-/

namespace TransportBackend.AtomicProgram

variable {Cmd : Type} {Resp : Cmd → Type} {ε α β σ : Type}

/-! ### Syntax -/

/-- A program issuing commands `c : Cmd`, each answered by a value of `Resp c`. -/
inductive Prog {Cmd : Type} (Resp : Cmd → Type) (ε α : Type) : Type where
  | ret : α → Prog Resp ε α
  | throw : ε → Prog Resp ε α
  | call : (c : Cmd) → (Resp c → Prog Resp ε α) → Prog Resp ε α

namespace Prog

/-- Sequencing: the second program starts from the value the first returns. -/
def bind : Prog Resp ε α → (α → Prog Resp ε β) → Prog Resp ε β
  | .ret a, f => f a
  | .throw e, _ => .throw e
  | .call c k, f => .call c (fun r => (k r).bind f)

instance : Monad (Prog Resp ε) where
  pure := .ret
  bind := bind

/-- One command, answered. -/
def perform (c : Cmd) : Prog Resp ε (Resp c) := .call c .ret

/-- A guard: throws `e` when the condition holds. -/
def refuseIf (p : Prop) [Decidable p] (e : ε) : Prog Resp ε Unit :=
  if p then .throw e else .ret ()

/-- The value of an option, or `e` when there is none. -/
def orThrow (e : ε) : Option α → Prog Resp ε α
  | some a => .ret a
  | none => .throw e

/-- A loop over a list held in memory. -/
def forEach (body : β → Prog Resp ε Unit) : List β → Prog Resp ε Unit
  | [] => .ret ()
  | x :: xs => (body x).bind (fun _ => forEach body xs)

/-- A program whose exceptions are caught and handed on as a value. -/
def attempt : Prog Resp ε α → Prog Resp ε (Except ε α)
  | .ret a => .ret (.ok a)
  | .throw e => .ret (.error e)
  | .call c k => .call c (fun r => (k r).attempt)

/-- A program that has returned or thrown. -/
def finished : Prog Resp ε α → Bool
  | .call _ _ => false
  | _ => true

/-! ### Run alone -/

/-- The program run alone from a store: its outcome and the store it leaves.  What was written
before a throw stays written. -/
def run (exec : (c : Cmd) → σ → Resp c × σ) : Prog Resp ε α → σ → Except ε α × σ
  | .ret a, s => (.ok a, s)
  | .throw e, s => (.error e, s)
  | .call c k, s => (k (exec c s).1).run exec (exec c s).2

variable (exec : (c : Cmd) → σ → Resp c × σ)

/-- A run of a sequence runs the first program and, unless it throws, the second after it. -/
theorem run_bind (p : Prog Resp ε α) (f : α → Prog Resp ε β) (s : σ) :
    (p >>= f).run exec s =
      match p.run exec s with
      | (.ok a, s') => (f a).run exec s'
      | (.error e, s') => (.error e, s') := by
  show (p.bind f).run exec s = _
  induction p generalizing s with
  | ret a => rfl
  | throw e => rfl
  | call c k ih => exact ih (exec c s).1 (exec c s).2

/-- A program that is caught runs as it does, and its outcome is a value. -/
theorem run_attempt (p : Prog Resp ε α) (s : σ) : p.attempt.run exec s = (.ok (p.run exec s).1, (p.run exec s).2) := by
  induction p generalizing s with
  | ret a => rfl
  | throw e => rfl
  | call c k ih => exact ih (exec c s).1 (exec c s).2

/-- What holds after the program ran alone from `s`: `Q` of the value it returned and the store it
left, or `E` of the store it left when it threw. -/
def After (p : Prog Resp ε α) (s : σ) (Q : α → σ → Prop) (E : σ → Prop) : Prop :=
  match p.run exec s with
  | (.ok a, s') => Q a s'
  | (.error _, s') => E s'

variable {exec} {Q : α → σ → Prop} {E : σ → Prop}

@[simp] theorem after_pure (a : α) (s : σ) :
    (pure a : Prog Resp ε α).After exec s Q E ↔ Q a s := Iff.rfl

@[simp] theorem after_ret (a : α) (s : σ) :
    (Prog.ret a : Prog Resp ε α).After exec s Q E ↔ Q a s := Iff.rfl

@[simp] theorem after_throw (e : ε) (s : σ) :
    (Prog.throw e : Prog Resp ε α).After exec s Q E ↔ E s := Iff.rfl

@[simp] theorem after_perform (c : Cmd) (s : σ) {Q : Resp c → σ → Prop} :
    (perform c : Prog Resp ε (Resp c)).After exec s Q E ↔ Q (exec c s).1 (exec c s).2 := Iff.rfl

/-- The rule of sequencing. -/
@[simp] theorem after_bind (p : Prog Resp ε α) (f : α → Prog Resp ε β) (s : σ)
    {Q : β → σ → Prop} :
    (p >>= f).After exec s Q E ↔ p.After exec s (fun a s' => (f a).After exec s' Q E) E := by
  unfold After
  rw [run_bind]
  generalize p.run exec s = out
  obtain ⟨_ | _, s'⟩ := out <;> rfl

@[simp] theorem after_refuseIf (p : Prop) [Decidable p] (e : ε) (s : σ) {Q : Unit → σ → Prop} :
    (refuseIf p e : Prog Resp ε Unit).After exec s Q E ↔ (p → E s) ∧ (¬p → Q () s) := by
  by_cases h : p <;> simp [refuseIf, h]

@[simp] theorem after_orThrow (e : ε) (o : Option α) (s : σ) :
    (orThrow e o : Prog Resp ε α).After exec s Q E ↔
      (o = none → E s) ∧ (∀ a, o = some a → Q a s) := by
  cases o <;> simp [orThrow]

theorem after_ite (c : Prop) [Decidable c] (p q : Prog Resp ε α) (s : σ) :
    (if c then p else q).After exec s Q E ↔
      (c → p.After exec s Q E) ∧ (¬c → q.After exec s Q E) := by
  by_cases h : c <;> simp [h]

theorem after_mono {p : Prog Resp ε α} {s : σ} {Q' : α → σ → Prop} {E' : σ → Prop}
    (h : p.After exec s Q E) (hQ : ∀ a s', Q a s' → Q' a s') (hE : ∀ s', E s' → E' s') :
    p.After exec s Q' E' := by
  unfold After at h ⊢
  generalize p.run exec s = out at h
  obtain ⟨_ | _, s'⟩ := out
  · exact hE _ h
  · exact hQ _ _ h

/-- **The loop rule.**  The invariant speaks of the elements still to come; every turn takes one of
them. -/
theorem after_forEach {body : β → Prog Resp ε Unit} {xs : List β} {s : σ}
    (I : List β → σ → Prop)
    (hbody : ∀ x rest s, x :: rest <:+ xs → I (x :: rest) s →
      (body x).After exec s (fun _ s' => I rest s') E)
    (hs : I xs s) : (forEach body xs).After exec s (fun _ s' => I [] s') E := by
  induction xs generalizing s with
  | nil => exact hs
  | cons x xs ih =>
      show ((body x) >>= fun _ => forEach body xs).After exec s _ E
      rw [after_bind]
      refine after_mono (hbody x xs s (List.suffix_refl _) hs) (fun _ s' hI => ?_) (fun _ h => h)
      exact ih (fun y rest s hy hI => hbody y rest s (hy.trans (List.suffix_cons _ _)) hI) hI

/-- Caught exceptions become values. -/
theorem after_attempt {p : Prog Resp ε α} {s : σ} {Q : Except ε α → σ → Prop}
    (h : p.After exec s (fun a s' => Q (.ok a) s') (fun s' => ∀ e, Q (.error e) s')) :
    p.attempt.After exec s Q E := by
  induction p generalizing s with
  | ret a => exact h
  | throw e => exact h e
  | call c k ih => exact ih (exec c s).1 h

/-- What holds however the program ended holds of the store it left. -/
theorem After.store {p : Prog Resp ε α} {s : σ} {P : σ → Prop}
    (h : p.After exec s (fun _ s' => P s') P) : P (p.run exec s).2 := by
  unfold After at h
  generalize p.run exec s = out at h
  obtain ⟨_ | _, s'⟩ := out <;> exact h

/-- What holds when the program returns holds of the value it returned. -/
theorem After.of_ok {p : Prog Resp ε α} {s : σ} {a : α} (h : p.After exec s Q E)
    (hok : (p.run exec s).1 = .ok a) : Q a (p.run exec s).2 := by
  unfold After at h
  generalize p.run exec s = out at h hok
  obtain ⟨_ | _, s'⟩ := out <;> cases hok
  exact h

/-! ### The discipline of a program -/

/-- Every command the program can issue satisfies `pre`, and every value it can return satisfies
`Q`, whatever responses it gets among those `post` allows. -/
def Within (pre : Cmd → Prop) (post : (c : Cmd) → Resp c → Prop) :
    Prog Resp ε α → (α → Prop) → Prop
  | .ret a, Q => Q a
  | .throw _, _ => True
  | .call c k, Q => pre c ∧ ∀ r, post c r → (k r).Within pre post Q

variable {pre : Cmd → Prop} {post : (c : Cmd) → Resp c → Prop}

theorem within_mono {p : Prog Resp ε α} {Q Q' : α → Prop} (h : p.Within pre post Q)
    (hQ : ∀ a, Q a → Q' a) : p.Within pre post Q' := by
  induction p with
  | ret a => exact hQ a h
  | throw e => trivial
  | call c k ih => exact ⟨h.1, fun r hr => ih r (h.2 r hr)⟩

theorem within_weaken {pre' : Cmd → Prop} {p : Prog Resp ε α} {Q : α → Prop}
    (hpre : ∀ c, pre c → pre' c) (h : p.Within pre post Q) : p.Within pre' post Q := by
  induction p with
  | ret a => exact h
  | throw e => trivial
  | call c k ih => exact ⟨hpre c h.1, fun r hr => ih r (h.2 r hr)⟩

theorem within_true (p : Prog Resp ε α) : p.Within (fun _ => True) post (fun _ => True) := by
  induction p with
  | ret a => trivial
  | throw e => trivial
  | call c k ih => exact ⟨trivial, fun r _ => ih r⟩

@[simp] theorem within_pure (a : α) {Q : α → Prop} :
    (pure a : Prog Resp ε α).Within pre post Q ↔ Q a := Iff.rfl

@[simp] theorem within_ret (a : α) {Q : α → Prop} :
    (Prog.ret a : Prog Resp ε α).Within pre post Q ↔ Q a := Iff.rfl

@[simp] theorem within_throw (e : ε) {Q : α → Prop} :
    (Prog.throw e : Prog Resp ε α).Within pre post Q ↔ True := Iff.rfl

@[simp] theorem within_perform (c : Cmd) {Q : Resp c → Prop} :
    (perform c : Prog Resp ε (Resp c)).Within pre post Q ↔ pre c ∧ ∀ r, post c r → Q r := Iff.rfl

/-- The discipline of a sequence: the second program starts from a value the first may return. -/
@[simp] theorem within_bind (p : Prog Resp ε α) (f : α → Prog Resp ε β) {Q : β → Prop} :
    (p >>= f).Within pre post Q ↔ p.Within pre post (fun a => (f a).Within pre post Q) := by
  show (p.bind f).Within pre post Q ↔ _
  induction p with
  | ret a => exact Iff.rfl
  | throw e => exact Iff.rfl
  | call c k ih => exact and_congr_right fun _ => forall_congr' fun r => imp_congr_right fun _ => ih r

@[simp] theorem within_refuseIf (p : Prop) [Decidable p] (e : ε) {Q : Unit → Prop} :
    (refuseIf p e : Prog Resp ε Unit).Within pre post Q ↔ (¬p → Q ()) := by
  by_cases hp : p <;> simp [refuseIf, hp]

@[simp] theorem within_orThrow (e : ε) (o : Option α) {Q : α → Prop} :
    (orThrow e o : Prog Resp ε α).Within pre post Q ↔ ∀ a, o = some a → Q a := by
  cases o <;> simp [orThrow]

/-- **The loop rule of the discipline.** -/
theorem within_forEach {body : β → Prog Resp ε Unit} {xs : List β} {Q : Unit → Prop}
    (hbody : ∀ x ∈ xs, (body x).Within pre post (fun _ => True)) (hQ : Q ()) :
    (forEach body xs).Within pre post Q := by
  induction xs with
  | nil => exact hQ
  | cons x xs ih =>
      refine (within_bind _ _).mpr (within_mono (hbody x (by simp)) fun _ _ => ?_)
      exact ih fun y hy => hbody y (by simp [hy])

/-- **A discipline carries an invariant of the store through a run alone.** -/
theorem after_of_within {exec : (c : Cmd) → σ → Resp c × σ} {Inv : σ → Prop} {p : Prog Resp ε α}
    {s : σ} {Q : α → Prop}
    (hexec : ∀ c s, Inv s → pre c → Inv (exec c s).2 ∧ post c (exec c s).1)
    (h : p.Within pre post Q) (hs : Inv s) : p.After exec s (fun a s' => Q a ∧ Inv s') Inv := by
  induction p generalizing s with
  | ret a => exact ⟨h, hs⟩
  | throw e => exact hs
  | call c k ih =>
      obtain ⟨hinv, hpost⟩ := hexec c s hs h.1
      exact ih _ (h.2 _ hpost) hinv

theorem within_attempt {p : Prog Resp ε α} {Q : Except ε α → Prop}
    (h : p.Within pre post (fun a => Q (.ok a))) (herr : ∀ e, Q (.error e)) :
    p.attempt.Within pre post Q := by
  induction p with
  | ret a => exact h
  | throw e => exact herr e
  | call c k ih => exact ⟨h.1, fun r hr => ih r (h.2 r hr)⟩

/-! ### Programs of one kind of command -/

section Issues

variable {P P' : Cmd → Prop} {p : Prog Resp ε α} {f : α → Prog Resp ε β}

/-- Every command the program can issue satisfies `P`. -/
def Issues (P : Cmd → Prop) (p : Prog Resp ε α) : Prop :=
  p.Within P (fun _ _ => True) (fun _ => True)

theorem Issues.mono (h : p.Issues P) (hP : ∀ c, P c → P' c) : p.Issues P' := within_weaken hP h

theorem Issues.bind (hp : p.Issues P) (hf : ∀ a, (f a).Issues P) : (p >>= f).Issues P :=
  (within_bind _ _).mpr (within_mono hp fun a _ => hf a)

theorem Issues.map (hp : p.Issues P) (g : α → β) : (g <$> p).Issues P := hp.bind fun _ => trivial

theorem issues_pure (a : α) : (pure a : Prog Resp ε α).Issues P := trivial

theorem issues_throw (e : ε) : (.throw e : Prog Resp ε α).Issues P := trivial

theorem issues_perform {c : Cmd} (h : P c) : (perform c : Prog Resp ε (Resp c)).Issues P :=
  ⟨h, fun _ _ => trivial⟩

theorem issues_refuseIf (q : Prop) [Decidable q] (e : ε) :
    (refuseIf q e : Prog Resp ε Unit).Issues P := (within_refuseIf q e).mpr fun _ => trivial

theorem issues_orThrow (e : ε) (o : Option α) : (orThrow e o : Prog Resp ε α).Issues P :=
  (within_orThrow e o).mpr fun _ _ => trivial

theorem issues_attempt (hp : p.Issues P) : p.attempt.Issues P := within_attempt hp fun _ => trivial

end Issues

end Prog

end TransportBackend.AtomicProgram
