import TransportBackend.MonitoredProgram

/-!
# Between reading and writing

A call that reads something and later writes by what it read holds a **window** on it: from the read until the
write.  Another call's write in between makes the window **stale**; whoever writes by a window that is not stale writes
by what still stands.  The windows are those of a monitor, so the same monitor that lets a program write by what it
read also tells which windows are open.

* `Windows` — which answers open windows, which commands close and disturb them;
* `windowsOf` — the windows of a call, read off the trace;
* `stale` — somebody else has disturbed the key since the call read it;
* `Run.stands` — **what was read and is not stale still stands**, at every point of every run;
* `Run.monitored` — the same together with an invariant that rests on it, and with what the calls may do;
* `Fresh` — no step disturbs what its own call has read and somebody else has disturbed since;
* `Run.fresh_of_serial` — **calls one after another are fresh**.
-/

namespace TransportBackend.ReadWindows

open TransportBackend.AtomicProgram
open TransportBackend.InterleavedRun
open TransportBackend.MonitoredProgram

variable {Cmd : Type} {Resp : Cmd → Type} {Key V ε σ : Type}

/-- What a call has read and not yet written by, for each key. -/
abbrev Held (Key V : Type) : Type := Key → Option V

/-- Which answers open windows, which commands close them, and which disturb what others read. -/
structure Windows {Cmd : Type} (Resp : Cmd → Type) (Key V : Type) where
  opens : (c : Cmd) → Resp c → Key → Option V
  closes : Cmd → Key → Bool
  disturbs : Cmd → Key → Bool
  /-- Which command may come next, and which answers it may get. -/
  allowed : Held Key V → Cmd → Prop
  answers : Held Key V → (c : Cmd) → Resp c → Prop

variable {w : Windows Resp Key V}

/-- The windows after a command. -/
def Windows.next (w : Windows Resp Key V) (q : Held Key V) (c : Cmd) (r : Resp c) : Held Key V := fun k =>
  (w.opens c r k).or (if w.closes c k then none else q k)

/-- The monitor whose state are the windows. -/
def Windows.monitor (w : Windows Resp Key V) : Monitor Resp (Held Key V) := ⟨w.allowed, w.answers, w.next⟩

/-- No window is open. -/
def Held.none : Held Key V := fun _ => Option.none

/-- The windows of a call after a trace. -/
def windowsOf (w : Windows Resp Key V) (tr : List (Event Resp)) (pid : ℕ) : Held Key V :=
  stateOf w.monitor Held.none tr pid

/-- Since the call opened its window on the key, another call has disturbed it. -/
def stale (w : Windows Resp Key V) : List (Event Resp) → ℕ → Key → Bool
  | [], _, _ => false
  | .act x c r :: tr, pid, k =>
      if x = pid then (w.opens c r k).isNone && stale w tr pid k else w.disturbs c k || stale w tr pid k
  | .outside :: tr, pid, k => stale w tr pid k
  | .start _ :: tr, pid, k => stale w tr pid k

/-- The call holds a window on the key, and it is stale. -/
def outdated (w : Windows Resp Key V) (tr : List (Event Resp)) (pid : ℕ) (k : Key) : Bool :=
  stale w tr pid k && (windowsOf w tr pid k).isSome

/-- A step disturbs no key on which its own call holds a stale window. -/
def Fresh (w : Windows Resp Key V) (tr : List (Event Resp)) (_ : Conf Resp ε σ) : Event Resp → Prop
  | .act pid c _ => ∀ k, w.disturbs c k = true → outdated w tr pid k = false
  | _ => True

theorem fresh_of_held {tr : List (Event Resp)} {pid : ℕ} {k : Key} {v : V} (hk : windowsOf w tr pid k = some v)
    (h : outdated w tr pid k = false) : stale w tr pid k = false := by
  rwa [outdated, hk, Option.isSome_some, Bool.and_true] at h

/-- A window after a command was opened by it, or was open and is not closed. -/
theorem Windows.next_some {q : Held Key V} {c : Cmd} {r : Resp c} {k : Key} {v : V} (h : w.next q c r k = some v) :
    w.opens c r k = some v ∨ (w.opens c r k = none ∧ w.closes c k = false ∧ q k = some v) := by
  unfold Windows.next at h
  cases hopens : w.opens c r k with
  | some u =>
      rw [hopens] at h
      exact .inl h
  | none =>
      rw [hopens, Option.none_or] at h
      split at h
      · cases h
      · rename_i hcloses
        exact .inr ⟨rfl, Bool.eq_false_iff.mpr hcloses, h⟩

/-- A key that nobody disturbs is never stale. -/
theorem stale_of_undisturbed {k : Key} (h : ∀ c, w.disturbs c k = false) (tr : List (Event Resp)) (pid : ℕ) :
    stale w tr pid k = false := by
  induction tr with
  | nil => rfl
  | cons e tr ih =>
      cases e with
      | act x c r => simp [stale, ih, h c]
      | outside => exact ih
      | start => exact ih

section Interleaved

variable {M : Machine Resp ε σ} {Ok : List (Event Resp) → Conf Resp ε σ → Event Resp → Prop} {s₀ : σ}
  {tr : List (Event Resp)} {b : Conf Resp ε σ}

/-- What the call has read and is not stale stands in the store. -/
def Stands (w : Windows Resp Key V) (holds : Key → V → σ → Prop) (tr : List (Event Resp)) (s : σ) (pid : ℕ) : Prop :=
  ∀ k v, windowsOf w tr pid k = some v → stale w tr pid k = false → holds k v s

/-- A command whose answer says of the store what `holds` of it, that keeps this of every key it does not disturb and
closes its own windows on those it does, leaves everything read standing. -/
theorem stands_act {holds : Key → V → σ → Prop} {s s' : σ} {x : ℕ} {c : Cmd} {r : Resp c}
    (hstands : ∀ pid, Stands w holds tr s pid) (hread : ∀ k v, w.opens c r k = some v → holds k v s')
    (hkeep : ∀ k v, w.disturbs c k = false → holds k v s → holds k v s')
    (hown : ∀ k, w.disturbs c k = true → w.closes c k = true) (pid : ℕ) :
    Stands w holds (.act x c r :: tr) s' pid := by
  intro k v hk hfresh
  rw [stale] at hfresh
  by_cases hpid : x = pid
  · subst hpid
    have hself : w.next (windowsOf w tr x) c r k = some v := by
      rw [← hk]
      exact (congrFun (stateOf_act_self (μ := w.monitor) tr x c r) k).symm
    rcases Windows.next_some hself with hopens | ⟨hnot, hcloses, hopen⟩
    · exact hread k v hopens
    · rw [if_pos rfl, hnot] at hfresh
      refine hkeep k v ?_ (hstands x k v hopen hfresh)
      cases hdisturbs : w.disturbs c k with
      | false => rfl
      | true =>
          rw [hown k hdisturbs] at hcloses
          cases hcloses
  · rw [if_neg hpid, Bool.or_eq_false_iff] at hfresh
    have hother : windowsOf w tr pid k = some v := by
      rw [← hk]
      exact (congrFun (stateOf_act_of_ne (μ := w.monitor) hpid) k).symm
    exact hkeep k v hfresh.1 (hstands pid k v hother hfresh.2)

/-- **What was read and is not stale still stands.**  When the answer of a read says of the store what `holds` of it,
every command that does not disturb a key keeps that, and a command that disturbs a key closes the call's own window
on it, then at every point of every run what a call has read stands unless it is stale. -/
theorem Run.stands (holds : Key → V → σ → Prop)
    (hread : ∀ tr (b : Conf Resp ε σ) pid choice c next r s' k v, M.Run Ok (.start s₀) tr b →
      b.pool[pid]? = some (Prog.call c next) → M.exec choice c b.store = some (r, s') → w.opens c r k = some v →
      Stands w holds tr b.store pid → holds k v s')
    (hkeep : ∀ tr (b : Conf Resp ε σ) (pid : ℕ) choice c next r s' k v, M.Run Ok (.start s₀) tr b →
      b.pool[pid]? = some (Prog.call c next) → M.exec choice c b.store = some (r, s') → w.disturbs c k = false →
      holds k v b.store → holds k v s')
    (hown : ∀ c k, w.disturbs c k = true → w.closes c k = true)
    (houtside : ∀ tr (b : Conf Resp ε σ) o s' k v, M.Run Ok (.start s₀) tr b → M.outside o b.store = some s' →
      holds k v b.store → holds k v s')
    (hbegin : ∀ call s p s' k v, M.begin call s = some (p, s') → holds k v s → holds k v s')
    (h : M.Run Ok (.start s₀) tr b) (pid : ℕ) : Stands w holds tr b.store pid := by
  revert pid
  induction h with
  | nil =>
      intro pid k v hk
      cases hk
  | @snoc tr b c l e hrun hs _ ih =>
      cases l with
      | outside o =>
          obtain ⟨s, ho, rfl, rfl⟩ := Machine.step_outside hs
          exact fun pid k v hk hfresh => houtside tr b o _ k v hrun ho (ih pid k v hk hfresh)
      | start call =>
          obtain ⟨q, s, hq, rfl, rfl⟩ := Machine.step_start hs
          exact fun pid k v hk hfresh => hbegin call _ q s k v hq (ih pid k v hk hfresh)
      | act x choice =>
          obtain ⟨cmd, next, r, s, hcall, hx, rfl, rfl⟩ := Machine.step_act hs
          exact stands_act ih (fun k v hopens => hread tr b x choice cmd next r s k v hrun hcall hx hopens (ih x))
            (fun k v => hkeep tr b x choice cmd next r s k v hrun hcall hx) (hown cmd)

/-- Where the calls of a run stand with their windows: every program left is accepted from them. -/
def Monitored (w : Windows Resp Key V) (tr : List (Event Resp)) (pool : List (Prog Resp ε Unit)) : Prop :=
  (∀ pid, pool.length ≤ pid → windowsOf w tr pid = Held.none) ∧
    ∀ (pid : ℕ) p, pool[pid]? = some p → Accepts w.monitor p (windowsOf w tr pid) (fun _ _ => True)

theorem Monitored.start {pool : List (Prog Resp ε Unit)} {p : Prog Resp ε Unit} (h : Monitored w tr pool)
    (hp : Accepts w.monitor p Held.none (fun _ _ => True)) : Monitored w (.start pool.length :: tr) (pool ++ [p]) := by
  refine ⟨fun pid hpid => h.1 pid ?_, fun pid x hx => ?_⟩
  · rw [List.length_append] at hpid
    omega
  · rw [List.getElem?_append] at hx
    split at hx
    · exact h.2 pid x hx
    · rename_i hge
      rw [List.getElem?_singleton] at hx
      split at hx
      · obtain rfl := Option.some.inj hx
        have hnew : windowsOf w (.start pool.length :: tr) pid = Held.none := h.1 pid (by omega)
        rw [hnew]
        exact hp
      · cases hx

theorem Monitored.act {pool : List (Prog Resp ε Unit)} {x : ℕ} {c : Cmd} {next : Resp c → Prog Resp ε Unit} {r : Resp c}
    (h : Monitored w tr pool) (hcall : pool[x]? = some (.call c next)) (hr : w.answers (windowsOf w tr x) c r) :
    Monitored w (.act x c r :: tr) (pool.set x (next r)) := by
  have hlt : x < pool.length := (List.getElem?_eq_some_iff.mp hcall).1
  refine ⟨fun pid hpid => ?_, fun pid p hp => ?_⟩
  · rw [List.length_set] at hpid
    exact (stateOf_act_of_ne (μ := w.monitor) (by omega)).trans (h.1 pid hpid)
  · rw [List.getElem?_set] at hp
    split at hp
    · rename_i heq
      subst heq
      have hself : windowsOf w (.act x c r :: tr) x = w.next (windowsOf w tr x) c r :=
        stateOf_act_self (μ := w.monitor) tr x c r
      rw [hself, ← Option.some.inj hp]
      exact (h.2 x _ hcall).2 r hr
    · rename_i hne
      have hother : windowsOf w (.act x c r :: tr) pid = windowsOf w tr pid := stateOf_act_of_ne (μ := w.monitor) hne
      rw [hother]
      exact h.2 pid p hp

/-- **An invariant, what was read, and what the calls may do, together.**  Every call starts accepted; a command that is
allowed, of a call whose windows stand in a store with the invariant, is answered as the windows expect, keeps the
invariant, says what holds of what it reads, and keeps what it does not disturb. -/
theorem Run.monitored (Inv : σ → Prop) (holds : Key → V → σ → Prop) (hinit : Inv s₀)
    (haccepts : ∀ call s p s', M.begin call s = some (p, s') → Accepts w.monitor p Held.none (fun _ _ => True))
    (hexec : ∀ tr (b : Conf Resp ε σ) pid choice c r s', M.exec choice c b.store = some (r, s') →
      Ok tr b (.act pid c r) → Inv b.store → Stands w holds tr b.store pid → w.allowed (windowsOf w tr pid) c →
      w.answers (windowsOf w tr pid) c r ∧ Inv s' ∧ (∀ k v, w.opens c r k = some v → holds k v s') ∧
        ∀ k v, w.disturbs c k = false → holds k v b.store → holds k v s')
    (hown : ∀ c k, w.disturbs c k = true → w.closes c k = true)
    (houtside : ∀ o s s', M.outside o s = some s' → Inv s → Inv s' ∧ ∀ k v, holds k v s → holds k v s')
    (hbegin : ∀ call s p s', M.begin call s = some (p, s') → s' = s)
    (h : M.Run Ok (.start s₀) tr b) :
    Inv b.store ∧ (∀ pid, Stands w holds tr b.store pid) ∧ Monitored w tr b.pool := by
  induction h with
  | nil =>
      refine ⟨hinit, ?_, fun _ _ => rfl, ?_⟩
      · intro pid k v hk
        cases hk
      · intro pid p hp
        simp [Conf.start] at hp
  | @snoc tr b c l e hrun hs hok ih =>
      obtain ⟨hinv, hstands, hpool⟩ := ih
      cases l with
      | outside o =>
          obtain ⟨s, ho, rfl, rfl⟩ := Machine.step_outside hs
          obtain ⟨hafter, hkept⟩ := houtside o _ _ ho hinv
          exact ⟨hafter, fun pid k v hk hfresh => hkept k v (hstands pid k v hk hfresh), hpool⟩
      | start call =>
          obtain ⟨p, s, hp, rfl, rfl⟩ := Machine.step_start hs
          obtain rfl := hbegin call _ p s hp
          exact ⟨hinv, hstands, hpool.start (haccepts call _ p _ hp)⟩
      | act x choice =>
          obtain ⟨cmd, next, r, s, hcall, hx, rfl, rfl⟩ := Machine.step_act hs
          have hallowed : w.allowed (windowsOf w tr x) cmd := (hpool.2 x _ hcall).1
          obtain ⟨hanswers, hafter, hread, hkeep⟩ := hexec tr b x choice cmd r s hx hok hinv (hstands x) hallowed
          exact ⟨hafter, stands_act hstands hread hkeep (hown cmd), hpool.act hcall hanswers⟩

/-! ### One call after another -/

/-- At most one call is in progress, and none of its windows is stale. -/
structure Undisturbed (w : Windows Resp Key V) (tr : List (Event Resp)) (pool : List (Prog Resp ε Unit)) : Prop where
  idle : ∀ pid, pool.length ≤ pid → windowsOf w tr pid = Held.none
  alone : ∀ (x y : ℕ) p q, pool[x]? = some p → p.finished = false → pool[y]? = some q → q.finished = false → x = y
  fresh : ∀ (pid : ℕ) p, pool[pid]? = some p → p.finished = false → ∀ k, outdated w tr pid k = false

theorem Undisturbed.start {pool : List (Prog Resp ε Unit)} (h : Undisturbed w tr pool)
    (hquiet : ∀ p ∈ pool, p.finished = true) (p : Prog Resp ε Unit) :
    Undisturbed w (.start pool.length :: tr) (pool ++ [p]) := by
  have hlast : ∀ (x : ℕ) q, (pool ++ [p])[x]? = some q → q.finished = false → x = pool.length := by
    intro x q hx hq
    rw [List.getElem?_append] at hx
    split at hx
    · rw [hquiet q (List.mem_of_getElem? hx)] at hq
      cases hq
    · rw [List.getElem?_singleton] at hx
      split at hx
      · omega
      · cases hx
  refine ⟨fun pid hpid => h.idle pid ?_, fun x y a b hx ha hy hb => ?_, fun pid q hq hunfinished k => ?_⟩
  · rw [List.length_append] at hpid
    omega
  · rw [hlast x a hx ha, hlast y b hy hb]
  · obtain rfl := hlast pid q hq hunfinished
    have hnone : windowsOf w (.start pool.length :: tr) pool.length = Held.none := h.idle _ (le_refl _)
    rw [outdated, hnone]
    exact Bool.and_false _

theorem Undisturbed.act {pool : List (Prog Resp ε Unit)} (h : Undisturbed w tr pool) {x : ℕ} {c : Cmd}
    {next : Resp c → Prog Resp ε Unit} (hcall : pool[x]? = some (.call c next)) (r : Resp c) :
    Undisturbed w (.act x c r :: tr) (pool.set x (next r)) := by
  have hlt : x < pool.length := (List.getElem?_eq_some_iff.mp hcall).1
  have honly : ∀ (y : ℕ) q, (pool.set x (next r))[y]? = some q → q.finished = false → y = x := by
    intro y q hy hq
    rw [List.getElem?_set] at hy
    split at hy
    · rename_i heq
      exact heq.symm
    · exact h.alone y x q _ hy hq hcall rfl
  refine ⟨fun pid hpid => ?_, fun y z a b hy ha hz hb => ?_, fun pid q hq hunfinished k => ?_⟩
  · rw [List.length_set] at hpid
    exact (stateOf_act_of_ne (μ := w.monitor) (by omega)).trans (h.idle pid hpid)
  · rw [honly y a hy ha, honly z b hz hb]
  · obtain rfl := honly pid q hq hunfinished
    have hself : windowsOf w (.act pid c r :: tr) pid = w.next (windowsOf w tr pid) c r :=
      stateOf_act_self (μ := w.monitor) tr pid c r
    have hbefore := h.fresh pid _ hcall rfl k
    rw [outdated, hself, stale, if_pos rfl, Windows.next]
    cases hopens : w.opens c r k with
    | some v => rfl
    | none =>
        -- nothing was opened: what is held now was held before
        cases hcloses : w.closes c k with
        | true => simp
        | false => simpa [outdated] using hbefore

/-- In a run of calls one after another nothing a call holds is stale. -/
theorem Run.undisturbed (w : Windows Resp Key V) (h : M.Run Serial (.start s₀) tr b) : Undisturbed w tr b.pool := by
  induction h with
  | nil =>
      refine ⟨fun _ _ => rfl, fun x y p q hx => ?_, fun pid p hp => ?_⟩
      · simp [Conf.start] at hx
      · simp [Conf.start] at hp
  | @snoc tr b c l e hrun hs hserial ih =>
      cases l with
      | outside o =>
          obtain ⟨s, ho, rfl, rfl⟩ := Machine.step_outside hs
          exact ⟨ih.idle, ih.alone, ih.fresh⟩
      | start call =>
          obtain ⟨p, s, hp, rfl, rfl⟩ := Machine.step_start hs
          exact ih.start (hserial _ rfl) p
      | act x choice =>
          obtain ⟨cmd, next, r, s, hcall, hx, rfl, rfl⟩ := Machine.step_act hs
          exact ih.act hcall r

theorem Undisturbed.step {c : Conf Resp ε σ} {l : M.Label} {e : Event Resp} (h : Undisturbed w tr b.pool)
    (hs : M.step b l = some (e, c)) : Fresh w tr b e := by
  cases l with
  | outside o =>
      obtain ⟨s, ho, rfl, rfl⟩ := Machine.step_outside hs
      exact trivial
  | start call =>
      obtain ⟨p, s, hp, rfl, rfl⟩ := Machine.step_start hs
      exact trivial
  | act x choice =>
      obtain ⟨cmd, next, r, s, hcall, hx, rfl, rfl⟩ := Machine.step_act hs
      exact fun k _ => h.fresh x _ hcall rfl k

/-- **Calls one after another are fresh**, whatever the windows. -/
theorem Run.fresh_of_serial (w : Windows Resp Key V) (h : M.Run Serial (.start s₀) tr b) :
    M.Run (Fresh w) (.start s₀) tr b := by
  induction h with
  | nil => exact .nil
  | snoc hrun hs _ ih => exact .snoc ih hs ((Run.undisturbed w hrun).step hs)

theorem Later.fresh_of_serial (w : Windows Resp Key V) {x y : List (Event Resp) × Conf Resp ε σ}
    (h : M.Run Serial (.start s₀) x.1 x.2) (hxy : M.Later Serial x y) : M.Later (Fresh w) x y := by
  induction hxy with
  | refl => exact .refl
  | tail hxz hnext ih =>
      obtain ⟨l, e, hs, _, htr⟩ := hnext
      exact ih.tail ⟨l, e, hs, (Run.undisturbed w (Machine.Run.later h hxz)).step hs, htr⟩

end Interleaved

end TransportBackend.ReadWindows
