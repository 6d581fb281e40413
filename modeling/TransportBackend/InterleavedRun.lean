import TransportBackend.AtomicProgram

/-!
# Interleaved runs of atomic programs

Any number of programs share one store.  A **configuration** is the store together with what is
left of every call started so far; a step lets one of them issue its next command, starts a new
call, or lets something outside the calls happen (the clock, an expiring key).  Nothing restricts
the order of the steps.

Whatever is not decided by the store — the answer of another service, the outcome of a send — is a
*choice* the step makes, so a machine stays executable and a concrete run can be replayed by
`Machine.play`.

* `Machine.Run` — the runs whose every step meets a condition on the trace so far, the
  configuration before the step and the step's event;
* `Run.invariant` — the induction over a run, done once;
* `Run.within` — **the discipline survives interleaving**: programs that start disciplined stay so,
  whatever the other programs do in between;
* `step_cases`, `step_within` — one step of disciplined programs: what it did, and that they stay
  disciplined;
* `Run.relates` — what every step keeps is kept to any later point of the run;
* `Took` — an earlier step of a run, with the configuration it was taken in;
* `Tally`, `counting` — what the events of a run, or its steps on the store, add up to;
* `play_run`, `play_later` — a schedule replayed by `play` is a run, and leads to a later point.
-/

namespace TransportBackend.InterleavedRun

open TransportBackend.AtomicProgram

variable {Cmd : Type} {Resp : Cmd → Type} {ε σ : Type}

/-- A store, the commands on it, and the calls that may start on it. -/
structure Machine {Cmd : Type} (Resp : Cmd → Type) (ε σ : Type) where
  Choice : Type
  Outside : Type
  Call : Type
  exec : Choice → (c : Cmd) → σ → Option (Resp c × σ)
  outside : Outside → σ → Option σ
  begin : Call → σ → Option (Prog Resp ε Unit × σ)

/-- The store and what is left of every call started so far. -/
structure Conf {Cmd : Type} (Resp : Cmd → Type) (ε σ : Type) where
  store : σ
  pool : List (Prog Resp ε Unit)

/-- What a step did. -/
inductive Event {Cmd : Type} (Resp : Cmd → Type) where
  | outside
  | start (pid : ℕ)
  | act (pid : ℕ) (c : Cmd) (r : Resp c)

/-- The call that started at this event. -/
def Event.started : Event Resp → Option ℕ
  | .start pid => some pid
  | _ => none

/-- What the events of a trace come to. -/
def Tally (f : Event Resp → ℤ) (tr : List (Event Resp)) : ℤ := (tr.map f).sum

@[simp] theorem tally_nil (f : Event Resp → ℤ) : Tally f [] = 0 := rfl

@[simp] theorem tally_cons (f : Event Resp → ℤ) (e : Event Resp) (tr : List (Event Resp)) :
    Tally f (e :: tr) = f e + Tally f tr := List.sum_cons

/-- The configuration before any call. -/
def Conf.start (s : σ) : Conf Resp ε σ := ⟨s, []⟩

/-- No call is in progress. -/
def Conf.Quiet (a : Conf Resp ε σ) : Prop := ∀ p ∈ a.pool, p.finished = true

instance (a : Conf Resp ε σ) : Decidable a.Quiet :=
  inferInstanceAs (Decidable (∀ p ∈ a.pool, p.finished = true))

/-- Calls run one after another: a call starts only when no call is in progress. -/
def Serial (_ : List (Event Resp)) (a : Conf Resp ε σ) (e : Event Resp) : Prop :=
  ∀ _pid ∈ e.started, a.Quiet

instance (tr : List (Event Resp)) (a : Conf Resp ε σ) (e : Event Resp) : Decidable (Serial tr a e) :=
  inferInstanceAs (Decidable (∀ _pid ∈ e.started, a.Quiet))

namespace Machine

variable (M : Machine Resp ε σ)

/-- Which step is taken next. -/
inductive Label where
  | outside (o : M.Outside)
  | start (call : M.Call)
  | act (pid : ℕ) (choice : M.Choice)

/-- One step of an interleaved run. -/
def step (a : Conf Resp ε σ) : M.Label → Option (Event Resp × Conf Resp ε σ)
  | .outside o => (M.outside o a.store).map fun s => (.outside, ⟨s, a.pool⟩)
  | .start call =>
      (M.begin call a.store).map fun ps => (.start a.pool.length, ⟨ps.2, a.pool ++ [ps.1]⟩)
  | .act pid choice =>
      match a.pool[pid]? with
      | some (.call c k) =>
          (M.exec choice c a.store).map fun rs =>
            (.act pid c rs.1, ⟨rs.2, a.pool.set pid (k rs.1)⟩)
      | _ => none

/-- The runs from `a` whose every step meets `Ok`, with the trace (latest event first). -/
inductive Run (Ok : List (Event Resp) → Conf Resp ε σ → Event Resp → Prop)
    (a : Conf Resp ε σ) : List (Event Resp) → Conf Resp ε σ → Prop where
  | nil : Run Ok a [] a
  | snoc {tr : List (Event Resp)} {b c : Conf Resp ε σ} {l : M.Label} {e : Event Resp} :
      Run Ok a tr b → M.step b l = some (e, c) → Ok tr b e → Run Ok a (e :: tr) c

variable {M} {Ok : List (Event Resp) → Conf Resp ε σ → Event Resp → Prop}

/-! ### What a step can do -/

theorem step_outside {a b : Conf Resp ε σ} {o : M.Outside} {e : Event Resp}
    (h : M.step a (.outside o) = some (e, b)) :
    ∃ s, M.outside o a.store = some s ∧ e = .outside ∧ b = ⟨s, a.pool⟩ := by
  simp only [step, Option.map_eq_some_iff, Prod.mk.injEq] at h
  obtain ⟨s, hs, he, hb⟩ := h
  exact ⟨s, hs, he.symm, hb.symm⟩

theorem step_start {a b : Conf Resp ε σ} {call : M.Call} {e : Event Resp}
    (h : M.step a (.start call) = some (e, b)) :
    ∃ p s, M.begin call a.store = some (p, s) ∧ e = .start a.pool.length ∧
      b = ⟨s, a.pool ++ [p]⟩ := by
  simp only [step, Option.map_eq_some_iff, Prod.mk.injEq] at h
  obtain ⟨⟨p, s⟩, hs, he, hb⟩ := h
  exact ⟨p, s, hs, he.symm, hb.symm⟩

theorem step_act {a b : Conf Resp ε σ} {pid : ℕ} {choice : M.Choice} {e : Event Resp}
    (h : M.step a (.act pid choice) = some (e, b)) :
    ∃ c k r s, a.pool[pid]? = some (.call c k) ∧ M.exec choice c a.store = some (r, s) ∧
      e = .act pid c r ∧ b = ⟨s, a.pool.set pid (k r)⟩ := by
  simp only [step] at h
  split at h
  · rename_i c k hpool
    simp only [Option.map_eq_some_iff, Prod.mk.injEq] at h
    obtain ⟨⟨r, s⟩, hexec, he, hb⟩ := h
    exact ⟨c, k, r, s, hpool, hexec, he.symm, hb.symm⟩
  · cases h

/-! ### Induction over a run -/

/-- **The invariant rule.**  What holds at the start and is kept by every step that meets the
condition holds at the end of every run. -/
theorem Run.invariant {a b : Conf Resp ε σ} {tr : List (Event Resp)}
    (I : List (Event Resp) → Conf Resp ε σ → Prop) (h0 : I [] a)
    (hstep : ∀ tr b l e c, M.Run Ok a tr b → I tr b → M.step b l = some (e, c) → Ok tr b e →
      I (e :: tr) c)
    (h : M.Run Ok a tr b) : I tr b := by
  induction h with
  | nil => exact h0
  | snoc hrun hs hok ih => exact hstep _ _ _ _ _ hrun ih hs hok

/-- An invariant of a run holds wherever a step of it is taken. -/
theorem Run.and_invariant {a b : Conf Resp ε σ} {tr : List (Event Resp)}
    (I : Conf Resp ε σ → Prop) (h0 : I a)
    (hstep : ∀ tr b l e c, I b → M.step b l = some (e, c) → Ok tr b e → I c)
    (h : M.Run Ok a tr b) : M.Run (fun tr b e => Ok tr b e ∧ I b) a tr b ∧ I b := by
  induction h with
  | nil => exact ⟨.nil, h0⟩
  | snoc _ hs hok ih => exact ⟨.snoc ih.1 hs ⟨hok, ih.2⟩, hstep _ _ _ _ _ ih.2 hs hok⟩

/-- Every step of a run starts where the run has come to. -/
theorem Run.reached {a b : Conf Resp ε σ} {tr : List (Event Resp)} (h : M.Run Ok a tr b) :
    M.Run (fun tr b e => Ok tr b e ∧ M.Run Ok a tr b) a tr b := by
  induction h with
  | nil => exact .nil
  | snoc hrun hs hok ih => exact .snoc ih hs ⟨hok, hrun⟩

/-- **The discipline survives interleaving.**  When every call starts disciplined, and every
disciplined command keeps the store's invariant and is answered as the discipline allows, the
invariant holds at the end and every program left in the pool is disciplined. -/
theorem Run.within (Inv : σ → Prop) {pre : Cmd → Prop} {post : (c : Cmd) → Resp c → Prop}
    {a b : Conf Resp ε σ} {tr : List (Event Resp)}
    (hbegin : ∀ call s p s', Inv s → M.begin call s = some (p, s') →
      Inv s' ∧ p.Within pre post (fun _ => True))
    (houtside : ∀ o s s', Inv s → M.outside o s = some s' → Inv s')
    (hexec : ∀ choice c s r s', Inv s → pre c → M.exec choice c s = some (r, s') →
      Inv s' ∧ post c r)
    (hstore : Inv a.store) (hpool : ∀ p ∈ a.pool, p.Within pre post (fun _ => True))
    (h : M.Run Ok a tr b) :
    Inv b.store ∧ ∀ p ∈ b.pool, p.Within pre post (fun _ => True) := by
  refine Run.invariant
    (fun _ b => Inv b.store ∧ ∀ p ∈ b.pool, p.Within pre post (fun _ => True)) ⟨hstore, hpool⟩ ?_ h
  rintro tr b l e c _ ⟨hinv, hin⟩ hs _
  cases l with
  | outside o =>
      obtain ⟨s, ho, _, rfl⟩ := step_outside hs
      exact ⟨houtside o _ _ hinv ho, hin⟩
  | start call =>
      obtain ⟨p, s, hb, _, rfl⟩ := step_start hs
      obtain ⟨hinv', hp⟩ := hbegin call _ p s hinv hb
      refine ⟨hinv', fun q hq => ?_⟩
      rcases List.mem_append.mp hq with hq | hq
      · exact hin q hq
      · rw [List.mem_singleton.mp hq]
        exact hp
  | act pid choice =>
      obtain ⟨cmd, k, r, s, hcall, hx, _, rfl⟩ := step_act hs
      obtain ⟨hpre, hnext⟩ := hin _ (List.mem_of_getElem? hcall)
      obtain ⟨hinv', hpost⟩ := hexec _ _ _ _ _ hinv hpre hx
      refine ⟨hinv', fun q hq => ?_⟩
      rcases List.mem_or_eq_of_mem_set hq with hq | rfl
      · exact hin q hq
      · exact hnext r hpost

/-- **What a step of a disciplined configuration does to the store**, by the kind of its event. -/
theorem step_cases {pre : Cmd → Prop} {post : (c : Cmd) → Resp c → Prop} {a b : Conf Resp ε σ}
    {l : M.Label} {e : Event Resp} (hin : ∀ p ∈ a.pool, p.Within pre post (fun _ => True))
    (h : M.step a l = some (e, b)) :
    (∃ o, M.outside o a.store = some b.store ∧ e = .outside) ∨
      (∃ call p, M.begin call a.store = some (p, b.store) ∧ e = .start a.pool.length) ∨
      ∃ pid choice c r, pre c ∧ M.exec choice c a.store = some (r, b.store) ∧ e = .act pid c r := by
  cases l with
  | outside o =>
      obtain ⟨s, ho, rfl, rfl⟩ := step_outside h
      exact .inl ⟨o, ho, rfl⟩
  | start call =>
      obtain ⟨p, s, hb, rfl, rfl⟩ := step_start h
      exact .inr (.inl ⟨call, p, hb, rfl⟩)
  | act pid choice =>
      obtain ⟨c, k, r, s, hcall, hx, rfl, rfl⟩ := step_act h
      exact .inr (.inr ⟨pid, choice, c, r, (hin _ (List.mem_of_getElem? hcall)).1, hx, rfl⟩)

/-- A step keeps the discipline of the pool. -/
theorem step_within {pre : Cmd → Prop} {post : (c : Cmd) → Resp c → Prop} {a b : Conf Resp ε σ}
    {l : M.Label} {e : Event Resp}
    (hbegin : ∀ call s p s', M.begin call s = some (p, s') → p.Within pre post (fun _ => True))
    (hexec : ∀ choice c r s', pre c → M.exec choice c a.store = some (r, s') → post c r)
    (hin : ∀ p ∈ a.pool, p.Within pre post (fun _ => True)) (h : M.step a l = some (e, b)) :
    ∀ p ∈ b.pool, p.Within pre post (fun _ => True) := by
  cases l with
  | outside o =>
      obtain ⟨s, _, _, rfl⟩ := step_outside h
      exact hin
  | start call =>
      obtain ⟨p, s, hb, _, rfl⟩ := step_start h
      intro q hq
      rcases List.mem_append.mp hq with hq | hq
      · exact hin q hq
      · rw [List.mem_singleton.mp hq]
        exact hbegin call _ p s hb
  | act pid choice =>
      obtain ⟨c, k, r, s, hcall, hx, _, rfl⟩ := step_act h
      obtain ⟨hpre, hnext⟩ := hin _ (List.mem_of_getElem? hcall)
      intro q hq
      rcases List.mem_or_eq_of_mem_set hq with hq | rfl
      · exact hin q hq
      · exact hnext r (hexec _ _ _ _ hpre hx)

/-- The command of the next step of a disciplined configuration satisfies the discipline. -/
theorem pre_of_within {pre : Cmd → Prop} {post : (c : Cmd) → Resp c → Prop}
    {a : Conf Resp ε σ} {pid : ℕ} {c : Cmd} {k : Resp c → Prog Resp ε Unit}
    (hin : ∀ p ∈ a.pool, p.Within pre post (fun _ => True))
    (hpool : a.pool[pid]? = some (.call c k)) : pre c :=
  (hin _ (List.mem_of_getElem? hpool)).1

/-! ### Going on -/

/-- One more step of a run. -/
def Next (M : Machine Resp ε σ) (Ok : List (Event Resp) → Conf Resp ε σ → Event Resp → Prop)
    (x y : List (Event Resp) × Conf Resp ε σ) : Prop :=
  ∃ l e, M.step x.2 l = some (e, y.2) ∧ Ok x.1 x.2 e ∧ y.1 = e :: x.1

/-- The end of a run and any later point of it. -/
def Later (M : Machine Resp ε σ) (Ok : List (Event Resp) → Conf Resp ε σ → Event Resp → Prop) :
    List (Event Resp) × Conf Resp ε σ → List (Event Resp) × Conf Resp ε σ → Prop :=
  Relation.ReflTransGen (M.Next Ok)

theorem Run.later {a : Conf Resp ε σ} {x y : List (Event Resp) × Conf Resp ε σ}
    (h : M.Run Ok a x.1 x.2) (hxy : M.Later Ok x y) : M.Run Ok a y.1 y.2 := by
  induction hxy with
  | refl => exact h
  | tail _ hnext ih =>
      obtain ⟨l, e, hs, hok, htr⟩ := hnext
      rw [htr]
      exact .snoc ih hs hok

/-- **What every step keeps is kept to any later point**: a relation between a configuration and a
later one that every step of a run extends. -/
theorem Run.relates {a : Conf Resp ε σ} {x y : List (Event Resp) × Conf Resp ε σ}
    (R : Conf Resp ε σ → Conf Resp ε σ → Prop) (hrefl : ∀ b, R b b)
    (hstep : ∀ tr b l e c b₀, M.Run Ok a tr b → M.step b l = some (e, c) → Ok tr b e →
      R b₀ b → R b₀ c)
    (h : M.Run Ok a x.1 x.2) (hxy : M.Later Ok x y) : R x.2 y.2 := by
  induction hxy with
  | refl => exact hrefl _
  | tail hxz hnext ih =>
      obtain ⟨l, e, hs, hok, _⟩ := hnext
      exact hstep _ _ l e _ _ (h.later hxz) hs hok ih

/-! ### Looking back -/

/-- The run from `a` came by `x`, took a step with this event there, and went on to `y`. -/
def Took (M : Machine Resp ε σ) (Ok : List (Event Resp) → Conf Resp ε σ → Event Resp → Prop)
    (a : Conf Resp ε σ) (x : List (Event Resp) × Conf Resp ε σ) (e : Event Resp)
    (y : List (Event Resp) × Conf Resp ε σ) : Prop :=
  M.Run Ok a x.1 x.2 ∧ ∃ l c, M.step x.2 l = some (e, c) ∧ Ok x.1 x.2 e ∧ M.Later Ok (e :: x.1, c) y

theorem Took.next {a c : Conf Resp ε σ} {x y : List (Event Resp) × Conf Resp ε σ} {l : M.Label}
    {e e' : Event Resp} (h : M.Took Ok a x e y) (hs : M.step y.2 l = some (e', c))
    (hok : Ok y.1 y.2 e') : M.Took Ok a x e (e' :: y.1, c) := by
  obtain ⟨hrun, l', c', hs', hok', hlater⟩ := h
  exact ⟨hrun, l', c', hs', hok', hlater.tail ⟨l, e', hs, hok, rfl⟩⟩

theorem Run.took {a b c : Conf Resp ε σ} {tr : List (Event Resp)} {l : M.Label} {e : Event Resp}
    (h : M.Run Ok a tr b) (hs : M.step b l = some (e, c)) (hok : Ok tr b e) :
    M.Took Ok a (tr, b) e (e :: tr, c) := ⟨h, l, c, hs, hok, .refl⟩

/-! ### Counting -/

/-- The machine with a counter beside the store: it adds up what every step does to the store, and no
call reads it. -/
def counting (M : Machine Resp ε σ) (f : σ → σ → ℤ) : Machine Resp ε (σ × ℤ) where
  Choice := M.Choice
  Outside := M.Outside
  Call := M.Call
  exec choice c s := (M.exec choice c s.1).map fun rs => (rs.1, (rs.2, s.2 + f s.1 rs.2))
  outside o s := (M.outside o s.1).map fun s' => (s', s.2 + f s.1 s')
  begin call s := (M.begin call s.1).map fun ps => (ps.1, (ps.2, s.2 + f s.1 ps.2))

/-! ### Replaying a schedule -/

/-- A schedule replayed after a trace, as long as its steps meet the condition: the trace (latest
event first) and where it ends. -/
def play (M : Machine Resp ε σ) (Ok : List (Event Resp) → Conf Resp ε σ → Event Resp → Prop)
    [∀ tr a e, Decidable (Ok tr a e)] (tr : List (Event Resp)) (a : Conf Resp ε σ) :
    List M.Label → Option (List (Event Resp) × Conf Resp ε σ)
  | [] => some (tr, a)
  | l :: ls =>
      match M.step a l with
      | none => none
      | some (e, b) => if Ok tr a e then play M Ok (e :: tr) b ls else none

/-- A replayed schedule is a run. -/
theorem play_run [∀ tr a e, Decidable (Ok tr a e)] {a₀ a b : Conf Resp ε σ} {ls : List M.Label}
    {tr tr' : List (Event Resp)} (h₀ : M.Run Ok a₀ tr a) (h : M.play Ok tr a ls = some (tr', b)) :
    M.Run Ok a₀ tr' b := by
  induction ls generalizing a tr with
  | nil =>
      cases h
      exact h₀
  | cons l ls ih =>
      simp only [play] at h
      split at h
      · cases h
      · rename_i e c hs
        split at h
        · rename_i hok
          exact ih (.snoc h₀ hs hok) h
        · cases h

/-- A schedule replayed from the end of a run leads to a later point of it. -/
theorem play_later [∀ tr a e, Decidable (Ok tr a e)] {a b : Conf Resp ε σ} {ls : List M.Label}
    {tr tr' : List (Event Resp)} (h : M.play Ok tr a ls = some (tr', b)) :
    M.Later Ok (tr, a) (tr', b) := by
  induction ls generalizing a tr with
  | nil =>
      cases h
      exact .refl
  | cons l ls ih =>
      simp only [play] at h
      split at h
      · cases h
      · rename_i e c hs
        split at h
        · rename_i hok
          exact (ih h).head ⟨l, e, hs, hok, rfl⟩
        · cases h

end Machine

end TransportBackend.InterleavedRun
