import TransportBackend.MonitoredProgram

/-!
# Programs over two command sets

Two services that call each other issue commands to two stores.  Their command sets are put side by
side, a program of the one side is read as a program of both (`onLeft`, `onRight`), and a discipline of
both sides restricts to each.

* `accepts_onLeft`, `accepts_onRight` — a monitor of both sides watches a program of one side through
  its restriction;
* `within_onLeft` — so does a discipline of its commands.
-/

namespace TransportBackend.CommandSum

open TransportBackend.AtomicProgram
open TransportBackend.InterleavedRun
open TransportBackend.MonitoredProgram

variable {C D : Type} {R : C → Type} {S : D → Type} {ε α State : Type}

/-- The answers of both sides. -/
@[reducible] def RespSum (R : C → Type) (S : D → Type) : C ⊕ D → Type
  | .inl c => R c
  | .inr d => S d

/-- A program of the left side. -/
def onLeft : Prog R ε α → Prog (RespSum R S) ε α
  | .ret a => .ret a
  | .throw e => .throw e
  | .call c k => .call (.inl c) fun r => onLeft (k r)

/-- A program of the right side. -/
def onRight : Prog S ε α → Prog (RespSum R S) ε α
  | .ret a => .ret a
  | .throw e => .throw e
  | .call d k => .call (.inr d) fun r => onRight (k r)

/-- What a monitor of both sides asks of the left. -/
def restrictLeft (μ : Monitor (RespSum R S) State) : Monitor R State where
  allowed q c := μ.allowed q (.inl c)
  answers q c r := μ.answers q (.inl c) r
  next q c r := μ.next q (.inl c) r

/-- What a monitor of both sides asks of the right. -/
def restrictRight (μ : Monitor (RespSum R S) State) : Monitor S State where
  allowed q d := μ.allowed q (.inr d)
  answers q d r := μ.answers q (.inr d) r
  next q d r := μ.next q (.inr d) r

section Accepts

variable {μ : Monitor (RespSum R S) State} {q : State} {Q : Except ε α → State → Prop}

theorem accepts_onLeft (p : Prog R ε α) :
    Accepts μ (onLeft p) q Q ↔ Accepts (restrictLeft μ) p q Q := by
  induction p generalizing q with
  | ret a => exact Iff.rfl
  | throw e => exact Iff.rfl
  | call c k ih =>
      apply and_congr_right
      intro _
      apply forall_congr'
      intro r
      apply imp_congr_right
      intro _
      exact ih r

theorem accepts_onRight (p : Prog S ε α) :
    Accepts μ (onRight p) q Q ↔ Accepts (restrictRight μ) p q Q := by
  induction p generalizing q with
  | ret a => exact Iff.rfl
  | throw e => exact Iff.rfl
  | call d k ih =>
      apply and_congr_right
      intro _
      apply forall_congr'
      intro r
      apply imp_congr_right
      intro _
      exact ih r

end Accepts

/-- A discipline of both sides restricts to each. -/
theorem within_onLeft {pre : C ⊕ D → Prop} {post : (c : C ⊕ D) → RespSum R S c → Prop}
    (p : Prog R ε α) {Q : α → Prop} :
    (onLeft p).Within pre post Q ↔
      p.Within (fun c => pre (.inl c)) (fun c r => post (.inl c) r) Q := by
  induction p with
  | ret a => exact Iff.rfl
  | throw e => exact Iff.rfl
  | call c k ih =>
      apply and_congr_right
      intro _
      apply forall_congr'
      intro r
      apply imp_congr_right
      intro _
      exact ih r

end TransportBackend.CommandSum
