import TransportBackend.InterleavedRun

/-!
# Programs under a monitor

A discipline that every command satisfies on its own (`Within`) cannot say *once* or *before it
ends*.  A **monitor** can: it is a small machine that watches the commands of one program and their
responses, says which command may be issued next, and moves on with each response.

* `Accepts` — the monitor lets the program run to its end, whatever responses it gets among those it
  expects, and the outcome and the monitor's last state satisfy `Q`;
* `accepts_bind`, `accepts_attempt`, `accepts_forEach` — one rule for each form of program;
* `accepts_along` — what every step extends, the whole program extends;
* `Keeps` — programs that keep part of the monitor's state, with the same rules;
* `stateOf` — where the monitor of a call stands, read off the trace of an interleaved run;
* `Run.accepted` — **monitors survive interleaving**: in every run, every program left in the pool
  is accepted from where its own monitor stands;
* `Run.settled` — **what each call settles by its end, all have settled when none is in progress**;
* `Run.serial_ends` — when calls run one after another, one monitor may follow the store itself, and
  what holds at the end of a call holds whenever no call is in progress.
-/

namespace TransportBackend.MonitoredProgram

open TransportBackend.AtomicProgram
open TransportBackend.InterleavedRun

variable {Cmd : Type} {Resp : Cmd → Type} {State ε α β σ : Type}

/-- Which command may come next, which responses it may get, and where they lead. -/
structure Monitor {Cmd : Type} (Resp : Cmd → Type) (State : Type) where
  allowed : State → Cmd → Prop
  answers : State → (c : Cmd) → Resp c → Prop
  next : State → (c : Cmd) → Resp c → State

variable {μ : Monitor Resp State}

/-- The monitor in state `q` lets the program run to its end, and the outcome and the state it ends
in satisfy `Q`. -/
def Accepts (μ : Monitor Resp State) :
    Prog Resp ε α → State → (Except ε α → State → Prop) → Prop
  | .ret a, q, Q => Q (.ok a) q
  | .throw e, q, Q => Q (.error e) q
  | .call c k, q, Q => μ.allowed q c ∧ ∀ r, μ.answers q c r → Accepts μ (k r) (μ.next q c r) Q

/-! ### One rule for each form of program -/

theorem accepts_mono {p : Prog Resp ε α} {q : State} {Q Q' : Except ε α → State → Prop}
    (h : Accepts μ p q Q) (hQ : ∀ out q', Q out q' → Q' out q') : Accepts μ p q Q' := by
  induction p generalizing q with
  | ret a => exact hQ _ _ h
  | throw e => exact hQ _ _ h
  | call c k ih => exact ⟨h.1, fun r hr => ih r (h.2 r hr)⟩

@[simp] theorem accepts_pure (a : α) (q : State) {Q : Except ε α → State → Prop} :
    Accepts μ (pure a : Prog Resp ε α) q Q ↔ Q (.ok a) q := Iff.rfl

@[simp] theorem accepts_ret (a : α) (q : State) {Q : Except ε α → State → Prop} :
    Accepts μ (Prog.ret a : Prog Resp ε α) q Q ↔ Q (.ok a) q := Iff.rfl

@[simp] theorem accepts_throw (e : ε) (q : State) {Q : Except ε α → State → Prop} :
    Accepts μ (Prog.throw e : Prog Resp ε α) q Q ↔ Q (.error e) q := Iff.rfl

@[simp] theorem accepts_perform (c : Cmd) (q : State) {Q : Except ε (Resp c) → State → Prop} :
    Accepts μ (Prog.perform c : Prog Resp ε (Resp c)) q Q ↔
      μ.allowed q c ∧ ∀ r, μ.answers q c r → Q (.ok r) (μ.next q c r) := Iff.rfl

/-- `P` of the value and the state when the program returned, `E` of the error when it threw. -/
def outcome {γ : Type} (P : α → γ → Prop) (E : ε → γ → Prop) : Except ε α → γ → Prop
  | .ok a, q => P a q
  | .error e, q => E e q

@[simp] theorem outcome_ok {γ : Type} (P : α → γ → Prop) (E : ε → γ → Prop) (a : α) (q : γ) :
    outcome P E (.ok a) q ↔ P a q := Iff.rfl

@[simp] theorem outcome_error {γ : Type} (P : α → γ → Prop) (E : ε → γ → Prop) (e : ε) (q : γ) :
    outcome P E (.error e) q ↔ E e q := Iff.rfl

/-- The rule of sequencing. -/
@[simp] theorem accepts_bind (p : Prog Resp ε α) (f : α → Prog Resp ε β) (q : State)
    {Q : Except ε β → State → Prop} :
    Accepts μ (p >>= f) q Q ↔ Accepts μ p q
      (outcome (fun a q' => Accepts μ (f a) q' Q) (fun e q' => Q (.error e) q')) := by
  show Accepts μ (p.bind f) q Q ↔ _
  induction p generalizing q with
  | ret a => exact Iff.rfl
  | throw e => exact Iff.rfl
  | call c k ih =>
      apply and_congr_right
      intro _
      apply forall_congr'
      intro r
      apply imp_congr_right
      intro _
      exact ih r _

/-- Caught exceptions become values. -/
@[simp] theorem accepts_attempt (p : Prog Resp ε α) (q : State)
    {Q : Except ε (Except ε α) → State → Prop} :
    Accepts μ p.attempt q Q ↔ Accepts μ p q (fun out q' => Q (.ok out) q') := by
  induction p generalizing q with
  | ret a => exact Iff.rfl
  | throw e => exact Iff.rfl
  | call c k ih =>
      apply and_congr_right
      intro _
      apply forall_congr'
      intro r
      apply imp_congr_right
      intro _
      exact ih r _

theorem accepts_refuseIf (p : Prop) [Decidable p] (e : ε) (q : State)
    {Q : Except ε Unit → State → Prop} :
    Accepts μ (.refuseIf p e) q Q ↔ (p → Q (.error e) q) ∧ (¬p → Q (.ok ()) q) := by
  by_cases h : p <;> simp [Prog.refuseIf, h]

theorem accepts_orThrow (e : ε) (o : Option α) (q : State) {Q : Except ε α → State → Prop} :
    Accepts μ (.orThrow e o) q Q ↔
      (o = none → Q (.error e) q) ∧ ∀ a, o = some a → Q (.ok a) q := by
  cases o <;> simp [Prog.orThrow]

theorem accepts_ite (c : Prop) [Decidable c] (p p' : Prog Resp ε α) (q : State)
    {Q : Except ε α → State → Prop} :
    Accepts μ (if c then p else p') q Q ↔
      (c → Accepts μ p q Q) ∧ (¬c → Accepts μ p' q Q) := by
  by_cases h : c <;> simp [h]

/-- **The loop rule.**  The invariant speaks of the elements still to come. -/
theorem accepts_forEach {body : β → Prog Resp ε Unit} {xs : List β} {q : State}
    {Q : Except ε Unit → State → Prop} (I : List β → State → Prop)
    (hbody : ∀ x rest q, x :: rest <:+ xs → I (x :: rest) q →
      Accepts μ (body x) q (outcome (fun _ q' => I rest q') (fun e q' => Q (.error e) q')))
    (hq : I xs q) (hend : ∀ q, I [] q → Q (.ok ()) q) : Accepts μ (.forEach body xs) q Q := by
  induction xs generalizing q with
  | nil => exact hend q hq
  | cons x xs ih =>
      show Accepts μ (body x >>= fun _ => .forEach body xs) q Q
      rw [accepts_bind]
      apply accepts_mono (hbody x xs q (List.suffix_refl _) hq)
      intro out q' hout
      cases out with
      | ok _ => exact ih (fun y rest q hy => hbody y rest q (hy.trans (List.suffix_cons _ _))) hout
      | error e => exact hout

/-- **What every step carries along.**  A relation that every answered command of the program extends
holds from the start of the program to its end. -/
theorem accepts_along {R : State → State → Prop} {pre : Cmd → Prop} (hrefl : ∀ q, R q q)
    (htrans : ∀ q q' q'', R q q' → R q' q'' → R q q'')
    (hstep : ∀ q c r, pre c → μ.answers q c r → R q (μ.next q c r)) {p : Prog Resp ε α} {q : State}
    {Q : Except ε α → State → Prop} (hp : p.Within pre (fun _ _ => True) (fun _ => True))
    (h : Accepts μ p q Q) : Accepts μ p q (fun out q' => Q out q' ∧ R q q') := by
  induction p generalizing q with
  | ret a => exact ⟨h, hrefl q⟩
  | throw e => exact ⟨h, hrefl q⟩
  | call c k ih =>
      refine ⟨h.1, fun r hr => ?_⟩
      apply accepts_mono (ih r (hp.2 r trivial) (h.2 r hr))
      intro out q' hout
      exact ⟨hout.1, htrans _ _ _ (hstep q c r hp.1 hr) hout.2⟩

/-! ### Programs that keep part of the state -/

/-- The program keeps the part `f` of the monitor's state, however it ends. -/
def Keeps {γ : Type} (μ : Monitor Resp State) (f : State → γ) (p : Prog Resp ε α) : Prop :=
  ∀ q, Accepts μ p q (fun _ q' => f q' = f q)

/-- The program leaves the monitor where it stands. -/
abbrev Unseen (μ : Monitor Resp State) (p : Prog Resp ε α) : Prop := Keeps μ id p

section Keeps

variable {γ : Type} {f : State → γ}

theorem Keeps.accepts {p : Prog Resp ε α} {q : State} {Q : Except ε α → State → Prop}
    (h : Keeps μ f p) (hQ : ∀ out q', f q' = f q → Q out q') : Accepts μ p q Q :=
  accepts_mono (h q) hQ

theorem keeps_pure (a : α) : Keeps μ f (pure a : Prog Resp ε α) := fun _ => rfl

theorem keeps_ret (a : α) : Keeps μ f (Prog.ret a : Prog Resp ε α) := fun _ => rfl

theorem keeps_bind {p : Prog Resp ε α} {g : α → Prog Resp ε β} (hp : Keeps μ f p)
    (hg : ∀ a, Keeps μ f (g a)) : Keeps μ f (p >>= g) := by
  intro q
  rw [accepts_bind]
  apply hp.accepts
  intro out q' hq'
  cases out with
  | ok a =>
      apply (hg a).accepts
      intro _ q'' hq''
      exact hq''.trans hq'
  | error e => exact hq'

theorem keeps_attempt {p : Prog Resp ε α} (hp : Keeps μ f p) : Keeps μ f p.attempt := by
  intro q
  rw [accepts_attempt]
  exact hp q

theorem keeps_forEach {body : β → Prog Resp ε Unit} {xs : List β}
    (hbody : ∀ x ∈ xs, Keeps μ f (body x)) : Keeps μ f (.forEach body xs) := by
  induction xs with
  | nil => exact keeps_ret ()
  | cons x xs ih =>
      exact keeps_bind (hbody x (by simp)) fun _ => ih fun y hy => hbody y (by simp [hy])

/-- A program keeps what each of its commands keeps. -/
theorem keeps_of_within {pre : Cmd → Prop} {p : Prog Resp ε α}
    (hpre : ∀ c, pre c → ∀ q, μ.allowed q c ∧ ∀ r, μ.answers q c r → f (μ.next q c r) = f q)
    (h : p.Within pre (fun _ _ => True) (fun _ => True)) : Keeps μ f p := by
  induction p with
  | ret a => exact keeps_ret a
  | throw e => exact fun _ => rfl
  | call c k ih =>
      intro q
      obtain ⟨hallowed, hnext⟩ := hpre c h.1 q
      refine ⟨hallowed, fun r hr => ?_⟩
      apply accepts_mono (ih r (h.2 r trivial) _)
      intro _ q' hq'
      exact hq'.trans (hnext r hr)

end Keeps

theorem Unseen.accepts {p : Prog Resp ε α} {q : State} {Q : Except ε α → State → Prop}
    (h : Unseen μ p) (hQ : ∀ out, Q out q) : Accepts μ p q Q := by
  apply Keeps.accepts h
  intro out q' hq'
  rw [show q' = q from hq']
  exact hQ out

/-! ### Interleaved runs -/

/-- Where the monitor of call `pid` stands after a trace (latest event first). -/
def stateOf (μ : Monitor Resp State) (q₀ : State) : List (Event Resp) → ℕ → State
  | [], _ => q₀
  | .act pid c r :: tr, other =>
      if pid = other then μ.next (stateOf μ q₀ tr other) c r else stateOf μ q₀ tr other
  | .outside :: tr, other => stateOf μ q₀ tr other
  | .start _ :: tr, other => stateOf μ q₀ tr other

section Interleaved

variable {M : Machine Resp ε σ} {Ok : List (Event Resp) → Conf Resp ε σ → Event Resp → Prop}
  {q₀ : State}

theorem stateOf_act_self (tr : List (Event Resp)) (pid : ℕ) (c : Cmd) (r : Resp c) :
    stateOf μ q₀ (.act pid c r :: tr) pid = μ.next (stateOf μ q₀ tr pid) c r := if_pos rfl

theorem stateOf_act_of_ne {tr : List (Event Resp)} {pid other : ℕ} {c : Cmd} {r : Resp c}
    (h : pid ≠ other) : stateOf μ q₀ (.act pid c r :: tr) other = stateOf μ q₀ tr other := if_neg h

theorem stateOf_act (tr : List (Event Resp)) (pid : ℕ) (c : Cmd) (r : Resp c) :
    stateOf μ q₀ (.act pid c r :: tr) =
      Function.update (stateOf μ q₀ tr) pid (μ.next (stateOf μ q₀ tr pid) c r) := by
  funext other
  by_cases h : other = pid
  · subst h
    rw [Function.update_self]
    exact stateOf_act_self tr other c r
  · rw [Function.update_of_ne h]
    exact stateOf_act_of_ne (Ne.symm h)

/-- **Monitors survive interleaving.**  When every call starts accepted and every response of an
allowed step is one the monitor expects, every program left in the pool is accepted from where its
monitor stands. -/
theorem Run.accepted {F : State → Prop} {s₀ : σ} {b : Conf Resp ε σ} {tr : List (Event Resp)}
    (hbegin : ∀ call s p s', M.begin call s = some (p, s') →
      Accepts μ p q₀ (fun _ q => F q))
    (hexec : ∀ tr (b : Conf Resp ε σ) pid choice c r s' q,
      M.exec choice c b.store = some (r, s') → Ok tr b (.act pid c r) → μ.answers q c r)
    (h : M.Run Ok (.start s₀) tr b) :
    (∀ pid, b.pool.length ≤ pid → stateOf μ q₀ tr pid = q₀) ∧
      ∀ pid p, b.pool[pid]? = some p → Accepts μ p (stateOf μ q₀ tr pid) (fun _ q => F q) := by
  refine Machine.Run.invariant (fun tr b =>
    (∀ pid, b.pool.length ≤ pid → stateOf μ q₀ tr pid = q₀) ∧
      ∀ pid p, b.pool[pid]? = some p →
        Accepts μ p (stateOf μ q₀ tr pid) (fun _ q => F q)) ?_ ?_ h
  · refine ⟨fun _ _ => rfl, ?_⟩
    intro pid p hp
    simp [Conf.start] at hp
  · rintro tr b l e c _ ⟨hidle, hin⟩ hs hok
    cases l with
    | outside o =>
        obtain ⟨s, _, rfl, rfl⟩ := Machine.step_outside hs
        exact ⟨hidle, hin⟩
    | start call =>
        obtain ⟨p, s, hb, rfl, rfl⟩ := Machine.step_start hs
        constructor
        · intro pid hpid
          rw [List.length_append, List.length_singleton] at hpid
          exact hidle pid (by omega)
        · intro pid x hx
          rw [List.getElem?_append] at hx
          split at hx
          · exact hin pid x hx
          · rename_i hge
            -- the new call is the last of the pool, and its monitor has seen nothing
            have hx' : x = p := by
              rw [List.getElem?_singleton] at hx
              split at hx
              · exact (Option.some.inj hx).symm
              · cases hx
            have hq : stateOf μ q₀ (.start b.pool.length :: tr) pid = q₀ := hidle pid (by omega)
            rw [hx', hq]
            exact hbegin call _ p s hb
    | act pid choice =>
        obtain ⟨cmd, k, r, s, hcall, hx, rfl, rfl⟩ := Machine.step_act hs
        have hlt : pid < b.pool.length := (List.getElem?_eq_some_iff.mp hcall).1
        obtain ⟨_, hnext⟩ := hin pid _ hcall
        constructor
        · intro other hother
          rw [List.length_set] at hother
          rw [stateOf_act_of_ne (by omega)]
          exact hidle other hother
        · intro other p hp
          rw [List.getElem?_set] at hp
          split at hp
          · rename_i heq
            subst heq
            rw [stateOf_act_self, ← Option.some.inj hp]
            exact hnext r (hexec _ _ _ _ _ _ _ _ hx hok)
          · rename_i hne
            rw [stateOf_act_of_ne hne]
            exact hin other p hp

/-- **The next command of a call is one its monitor allows.** -/
theorem Run.allows {F : State → Prop} {s₀ : σ} {b : Conf Resp ε σ} {tr : List (Event Resp)} {pid : ℕ}
    {c : Cmd} {k : Resp c → Prog Resp ε Unit}
    (hbegin : ∀ call s p s', M.begin call s = some (p, s') → Accepts μ p q₀ (fun _ q => F q))
    (hexec : ∀ tr (b : Conf Resp ε σ) pid choice c r s' q,
      M.exec choice c b.store = some (r, s') → Ok tr b (.act pid c r) → μ.answers q c r)
    (h : M.Run Ok (.start s₀) tr b) (hpool : b.pool[pid]? = some (.call c k)) :
    μ.allowed (stateOf μ q₀ tr pid) c :=
  ((Run.accepted hbegin hexec h).2 pid _ hpool).1

/-! ### What every call settles -/

/-- The part of a tally that is due to commands. -/
def chargeOf (f : (c : Cmd) → Resp c → ℤ) : Event Resp → ℤ
  | .act _ c r => f c r
  | _ => 0

theorem finished_of_accepts {F : State → Prop} {p : Prog Resp ε α} {q : State}
    (h : Accepts μ p q (fun _ q => F q)) (hend : p.finished = true) : F q := by
  cases p with
  | ret a => exact h
  | throw e => exact h
  | call c k => cases hend

/-- What the calls of the pool still have to settle. -/
def owed (μ : Monitor Resp State) (q₀ : State) (w : State → ℤ) (tr : List (Event Resp)) (n : ℕ) : ℤ :=
  ∑ pid ∈ Finset.range n, w (stateOf μ q₀ tr pid)

theorem owed_act {w : State → ℤ} {tr : List (Event Resp)} {n pid : ℕ} (hpid : pid < n) (c : Cmd)
    (r : Resp c) :
    owed μ q₀ w (.act pid c r :: tr) n =
      owed μ q₀ w tr n - w (stateOf μ q₀ tr pid) + w (μ.next (stateOf μ q₀ tr pid) c r) := by
  have hmem : pid ∈ Finset.range n := Finset.mem_range.mpr hpid
  rw [owed, owed, ← Finset.add_sum_erase _ _ hmem, ← Finset.add_sum_erase _ _ hmem, stateOf_act_self]
  have hothers : ∀ other ∈ (Finset.range n).erase pid,
      w (stateOf μ q₀ (.act pid c r :: tr) other) = w (stateOf μ q₀ tr other) := by
    intro other hother
    rw [stateOf_act_of_ne (Finset.ne_of_mem_erase hother).symm]
  rw [Finset.sum_congr rfl hothers]
  ring

theorem owed_start {w : State → ℤ} {tr : List (Event Resp)} {n : ℕ} (hidle : stateOf μ q₀ tr n = q₀)
    (hstart : w q₀ = 0) : owed μ q₀ w (.start n :: tr) (n + 1) = owed μ q₀ w tr n := by
  have hnew : w (stateOf μ q₀ (.start n :: tr) n) = 0 := by
    rw [show stateOf μ q₀ (.start n :: tr) n = q₀ from hidle]
    exact hstart
  rw [owed, Finset.sum_range_succ, hnew, add_zero]
  rfl

/-- **What each call settles by its end, all have settled when none is in progress.**  A weight of the
monitor that every command moves by what it counts, that is zero at a call's start and at its end. -/
theorem Run.settled {F : State → Prop} {s₀ : σ} {b : Conf Resp ε σ} {tr : List (Event Resp)}
    (w : State → ℤ) (f : (c : Cmd) → Resp c → ℤ)
    (hbegin : ∀ call s p s', M.begin call s = some (p, s') → Accepts μ p q₀ (fun _ q => F q))
    (hexec : ∀ tr (b : Conf Resp ε σ) pid choice c r s' q,
      M.exec choice c b.store = some (r, s') → Ok tr b (.act pid c r) → μ.answers q c r)
    (hmove : ∀ q c r, μ.allowed q c → μ.answers q c r → w (μ.next q c r) = w q + f c r)
    (hstart : w q₀ = 0) (hend : ∀ q, F q → w q = 0) (h : M.Run Ok (.start s₀) tr b)
    (hquiet : b.Quiet) : Tally (chargeOf f) tr = 0 := by
  have hall : Tally (chargeOf f) tr = owed μ q₀ w tr b.pool.length := by
    refine Machine.Run.invariant
      (fun tr b => Tally (chargeOf f) tr = owed μ q₀ w tr b.pool.length) rfl ?_ h
    intro tr b l e c hrun htally hs hok
    obtain ⟨hidle, hin⟩ := Run.accepted hbegin hexec hrun
    cases l with
    | outside o =>
        obtain ⟨s, _, rfl, rfl⟩ := Machine.step_outside hs
        rw [tally_cons, htally]
        exact zero_add _
    | start call =>
        obtain ⟨p, s, _, rfl, rfl⟩ := Machine.step_start hs
        rw [tally_cons, htally]
        rw [List.length_append, List.length_singleton, owed_start (hidle _ (le_refl _)) hstart]
        exact zero_add _
    | act pid choice =>
        obtain ⟨cmd, k, r, s, hcall, hx, rfl, rfl⟩ := Machine.step_act hs
        have hlt : pid < b.pool.length := (List.getElem?_eq_some_iff.mp hcall).1
        have hallowed := (hin pid _ hcall).1
        have hanswers := hexec tr b pid choice cmd r s (stateOf μ q₀ tr pid) hx hok
        rw [tally_cons, htally, List.length_set, owed_act hlt, hmove _ _ _ hallowed hanswers]
        show f cmd r + _ = _
        ring
  rw [hall]
  apply Finset.sum_eq_zero
  intro pid hpid
  obtain ⟨_, hin⟩ := Run.accepted hbegin hexec h
  have hlt := Finset.mem_range.mp hpid
  apply hend
  have hp := hin pid b.pool[pid] (List.getElem?_eq_getElem hlt)
  exact finished_of_accepts hp (hquiet b.pool[pid] (List.getElem_mem hlt))

/-! ### Calls one after another -/

/-- **One monitor for calls run one after another.**  `I` relates the trace, the call in progress,
the monitor and the store; `F` holds of the monitor whenever no call is in progress.  When every call
starts accepted from a state that `I` allows and ends in `F`, and every allowed command is answered
as expected and keeps `I`, then `I` holds at the end of every serial run, `F` if it is quiet, and
what is left of the call in progress is accepted. -/
theorem Run.serial_ends {s₀ : σ} {b : Conf Resp ε σ} {tr : List (Event Resp)}
    (I : List (Event Resp) → ℕ → State → σ → Prop) (F : State → Prop)
    (hserial : ∀ tr b e, Ok tr b e → Serial tr b e)
    (hinit : ∃ pid q, I [] pid q s₀ ∧ F q)
    (hbegin : ∀ tr pid q (b : Conf Resp ε σ) call p s', I tr pid q b.store → F q →
      M.begin call b.store = some (p, s') → Ok tr b (.start b.pool.length) →
      ∃ q', I (.start b.pool.length :: tr) b.pool.length q' s' ∧ Accepts μ p q' (fun _ q => F q))
    (houtside : ∀ tr pid q (b : Conf Resp ε σ) o s', I tr pid q b.store →
      M.outside o b.store = some s' → Ok tr b .outside → I (.outside :: tr) pid q s')
    (hexec : ∀ tr pid q (b : Conf Resp ε σ) choice c r s', I tr pid q b.store → μ.allowed q c →
      M.exec choice c b.store = some (r, s') → Ok tr b (.act pid c r) →
      μ.answers q c r ∧ I (.act pid c r :: tr) pid (μ.next q c r) s')
    (h : M.Run Ok (.start s₀) tr b) :
    ∃ pid q, I tr pid q b.store ∧ (b.Quiet → F q) ∧
      ∀ x p, b.pool[x]? = some p → p.finished = false →
        x = pid ∧ Accepts μ p q (fun _ q => F q) := by
  refine Machine.Run.invariant (fun tr b => ∃ pid q, I tr pid q b.store ∧ (b.Quiet → F q) ∧
    ∀ x p, b.pool[x]? = some p → p.finished = false →
      x = pid ∧ Accepts μ p q (fun _ q => F q)) ?_ ?_ h
  · obtain ⟨pid, q, hI, hF⟩ := hinit
    refine ⟨pid, q, hI, fun _ => hF, ?_⟩
    intro x p hp
    simp [Conf.start] at hp
  · rintro tr b l e c _ ⟨pid, q, hI, hF, hin⟩ hs hok
    cases l with
    | outside o =>
        obtain ⟨s, ho, rfl, rfl⟩ := Machine.step_outside hs
        exact ⟨pid, q, houtside tr pid q b o s hI ho hok, hF, hin⟩
    | start call =>
        obtain ⟨p, s, hb, rfl, rfl⟩ := Machine.step_start hs
        have hquiet : b.Quiet := hserial _ _ _ hok b.pool.length rfl
        obtain ⟨q', hI', hp⟩ := hbegin tr pid q b call p s hI (hF hquiet) hb hok
        refine ⟨b.pool.length, q', hI', ?_, ?_⟩
        · intro hquiet'
          exact finished_of_accepts hp (hquiet' p (by simp))
        · intro x y hy hrun
          rw [List.getElem?_append] at hy
          split at hy
          · have hend := hquiet y (List.mem_of_getElem? hy)
            rw [hrun] at hend
            cases hend
          · rename_i hge
            rw [List.getElem?_singleton] at hy
            split at hy
            · rename_i hzero
              obtain rfl := Option.some.inj hy
              exact ⟨by omega, hp⟩
            · cases hy
    | act x choice =>
        obtain ⟨cmd, k, r, s, hcall, hx, rfl, rfl⟩ := Machine.step_act hs
        have hlt : x < b.pool.length := (List.getElem?_eq_some_iff.mp hcall).1
        obtain ⟨rfl, hallowed, hnext⟩ := hin x _ hcall rfl
        obtain ⟨hanswers, hI'⟩ := hexec tr x q b choice cmd r s hI hallowed hx hok
        refine ⟨x, _, hI', ?_, ?_⟩
        · intro hquiet
          exact finished_of_accepts (hnext r hanswers) (hquiet (k r) (List.mem_set hlt _))
        · intro y p hp hrun
          rw [List.getElem?_set] at hp
          split at hp
          · rename_i heq
            obtain rfl := Option.some.inj hp
            exact ⟨heq.symm, hnext r hanswers⟩
          · -- no other call is in progress
            rename_i hne
            exact absurd (hin y p hp hrun).1.symm hne

/-- The same, with nothing to say of a call's end. -/
theorem Run.serial {s₀ : σ} {b : Conf Resp ε σ} {tr : List (Event Resp)}
    (I : List (Event Resp) → ℕ → State → σ → Prop)
    (hserial : ∀ tr b e, Ok tr b e → Serial tr b e)
    (hinit : ∃ pid q, I [] pid q s₀)
    (hbegin : ∀ tr pid q (b : Conf Resp ε σ) call p s', I tr pid q b.store →
      M.begin call b.store = some (p, s') → Ok tr b (.start b.pool.length) →
      ∃ q', I (.start b.pool.length :: tr) b.pool.length q' s' ∧ Accepts μ p q' (fun _ _ => True))
    (houtside : ∀ tr pid q (b : Conf Resp ε σ) o s', I tr pid q b.store →
      M.outside o b.store = some s' → Ok tr b .outside → I (.outside :: tr) pid q s')
    (hexec : ∀ tr pid q (b : Conf Resp ε σ) choice c r s', I tr pid q b.store → μ.allowed q c →
      M.exec choice c b.store = some (r, s') → Ok tr b (.act pid c r) →
      μ.answers q c r ∧ I (.act pid c r :: tr) pid (μ.next q c r) s')
    (h : M.Run Ok (.start s₀) tr b) :
    ∃ pid q, I tr pid q b.store ∧ ∀ x p, b.pool[x]? = some p → p.finished = false →
      x = pid ∧ Accepts μ p q (fun _ _ => True) := by
  obtain ⟨pid₀, q₀, h₀⟩ := hinit
  obtain ⟨pid, q, hI, _, hin⟩ := Run.serial_ends I (fun _ => True) hserial ⟨pid₀, q₀, h₀, trivial⟩
    (fun tr pid q b call p s' hI _ => hbegin tr pid q b call p s' hI) houtside hexec h
  exact ⟨pid, q, hI, hin⟩

end Interleaved

end TransportBackend.MonitoredProgram
