import Mathlib.Data.Nat.Notation
import Mathlib.Data.Int.Notation
import Mathlib.Logic.Function.Basic
import Mathlib.Data.Option.Basic

/-!
# A store of keys that expire

The commands of Redis a server uses for its short-lived facts, each one atomic: a key holds a value and
perhaps a deadline, and a value may be read as a counter.  A key is not gone the moment its deadline is
reached: it **may** go at any time from then on (`evict`), so whatever is proved covers both a store
that drops keys at once and one that drops them late.

* `RedisCmd`, `redisExec`: the commands and what each answers and leaves;
* `value_redisExec_of_notMem`: a command changes no key but those it writes;
* `value_evict`, `evict_some`: what an eviction needs and does.
-/

namespace TransportBackend.RedisStore

variable {K V : Type}

/-! ### Keys -/

/-- What a key holds; without a deadline it stays. -/
structure Entry (V : Type) where
  value : V
  deadline : Option ℕ
  deriving DecidableEq

/-- The keys and the time in milliseconds. -/
structure Redis (K V : Type) where
  clock : ℕ
  keys : K → Option (Entry V)

namespace Redis

/-- What a key holds now. -/
def value (s : Redis K V) (k : K) : Option V := (s.keys k).map Entry.value

/-- The deadline a time to live of so many seconds gives. -/
def after (s : Redis K V) (ttlSeconds : ℕ) : ℕ := s.clock + ttlSeconds * 1000

variable [DecidableEq K]

def put (s : Redis K V) (k : K) (e : Option (Entry V)) : Redis K V :=
  { s with keys := Function.update s.keys k e }

@[simp] theorem clock_put (s : Redis K V) (k : K) (e : Option (Entry V)) :
    (s.put k e).clock = s.clock := rfl

@[simp] theorem keys_put_self (s : Redis K V) (k : K) (e : Option (Entry V)) :
    (s.put k e).keys k = e := by
  show Function.update s.keys k e k = e
  exact Function.update_self ..

theorem keys_put_of_ne {s : Redis K V} {k j : K} (h : j ≠ k) (e : Option (Entry V)) :
    (s.put k e).keys j = s.keys j := by
  show Function.update s.keys k e j = s.keys j
  exact Function.update_of_ne h ..

@[simp] theorem value_put_self (s : Redis K V) (k : K) (e : Option (Entry V)) :
    (s.put k e).value k = e.map Entry.value := by
  rw [value, keys_put_self]

theorem value_put_of_ne {s : Redis K V} {k j : K} (h : j ≠ k) (e : Option (Entry V)) :
    (s.put k e).value j = s.value j := by
  rw [value, keys_put_of_ne h, value]

end Redis

/-! ### Commands -/

/-- The values that `INCR` writes and reads. -/
class Counter (V : Type) where
  ofCount : ℕ → V
  toCount : V → ℕ

/-- The commands; times to live are seconds. -/
inductive RedisCmd (K V : Type) where
  | get (k : K)
  | ttl (k : K)
  | set (k : K) (v : V) (ttlSeconds : ℕ)
  | setIfAbsent (k : K) (v : V) (ttlSeconds : ℕ)
  | incr (k : K)
  | expire (k : K) (ttlSeconds : ℕ)
  | delete (ks : List K)
  | deleteIfValue (k : K) (v : V)
  | take (k : K)
  deriving DecidableEq

/-- What each command answers. -/
abbrev RedisResp : RedisCmd K V → Type
  | .get _ => Option V
  | .ttl _ => ℤ
  | .set _ _ _ => Unit
  | .setIfAbsent _ _ _ => Bool
  | .incr _ => ℕ
  | .expire _ _ => Bool
  | .delete _ => Unit
  | .deleteIfValue _ _ => Unit
  | .take _ => Option V

/-- The keys a command may change. -/
def RedisCmd.writes : RedisCmd K V → List K
  | .get _ => []
  | .ttl _ => []
  | .set k _ _ => [k]
  | .setIfAbsent k _ _ => [k]
  | .incr k => [k]
  | .expire k _ => [k]
  | .delete ks => ks
  | .deleteIfValue k _ => [k]
  | .take k => [k]

/-- `TTL`: the seconds left, -1 without a deadline, -2 without a key. -/
def secondsLeft (s : Redis K V) (k : K) : ℤ :=
  match s.keys k with
  | none => -2
  | some ⟨_, none⟩ => -1
  | some ⟨_, some d⟩ => (((d - s.clock + 500) / 1000 : ℕ) : ℤ)

/-- `INCR`: a missing key counts from zero and gets no deadline. -/
def counted [Counter V] : Option (Entry V) → ℕ × Entry V
  | none => (1, ⟨Counter.ofCount 1, none⟩)
  | some e => (Counter.toCount e.value + 1, { e with value := Counter.ofCount (Counter.toCount e.value + 1) })

variable [DecidableEq K] [DecidableEq V]

/-- `DEL`. -/
def deleted (s : Redis K V) (ks : List K) : Redis K V :=
  { s with keys := fun k => if k ∈ ks then none else s.keys k }

/-- What a command answers and leaves. -/
def redisExec [Counter V] : (c : RedisCmd K V) → Redis K V → RedisResp c × Redis K V
  | .get k, s => (s.value k, s)
  | .ttl k, s => (secondsLeft s k, s)
  | .set k v ttlSeconds, s => ((), s.put k (some ⟨v, some (s.after ttlSeconds)⟩))
  | .setIfAbsent k v ttlSeconds, s =>
      if (s.keys k).isSome then (false, s) else (true, s.put k (some ⟨v, some (s.after ttlSeconds)⟩))
  | .incr k, s => ((counted (s.keys k)).1, s.put k (some (counted (s.keys k)).2))
  | .expire k ttlSeconds, s =>
      ((s.keys k).isSome,
        s.put k ((s.keys k).map fun e => { e with deadline := some (s.after ttlSeconds) }))
  | .delete ks, s => ((), deleted s ks)
  | .deleteIfValue k v, s => ((), if s.value k = some v then s.put k none else s)
  | .take k, s => (s.value k, s.put k none)

/-- A key past its deadline goes. -/
def evict (s : Redis K V) (k : K) : Option (Redis K V) :=
  match s.keys k with
  | some ⟨_, some d⟩ => if d ≤ s.clock then some (s.put k none) else none
  | _ => none

/-! ### What they do -/

variable [Counter V]

theorem clock_redisExec (c : RedisCmd K V) (s : Redis K V) : (redisExec c s).2.clock = s.clock := by
  cases c with
  | setIfAbsent k v ttlSeconds =>
      rw [redisExec]
      split <;> rfl
  | deleteIfValue k v =>
      rw [redisExec]
      split <;> rfl
  | _ => rfl

/-- **A command changes no key but those it writes.** -/
theorem keys_redisExec_of_notMem {c : RedisCmd K V} {k : K} (h : k ∉ c.writes) (s : Redis K V) :
    (redisExec c s).2.keys k = s.keys k := by
  cases c with
  | get j => rfl
  | ttl j => rfl
  | delete ks => exact if_neg h
  | setIfAbsent j v ttlSeconds =>
      rw [redisExec]
      split
      · rfl
      · exact Redis.keys_put_of_ne (List.ne_of_not_mem_cons h) _
  | deleteIfValue j v =>
      show (if s.value j = some v then s.put j none else s).keys k = s.keys k
      split
      · exact Redis.keys_put_of_ne (List.ne_of_not_mem_cons h) _
      · rfl
  | set j v ttlSeconds => exact Redis.keys_put_of_ne (List.ne_of_not_mem_cons h) _
  | incr j => exact Redis.keys_put_of_ne (List.ne_of_not_mem_cons h) _
  | expire j ttlSeconds => exact Redis.keys_put_of_ne (List.ne_of_not_mem_cons h) _
  | take j => exact Redis.keys_put_of_ne (List.ne_of_not_mem_cons h) _

theorem value_redisExec_of_notMem {c : RedisCmd K V} {k : K} (h : k ∉ c.writes) (s : Redis K V) :
    (redisExec c s).2.value k = s.value k := by
  rw [Redis.value, keys_redisExec_of_notMem h, Redis.value]

/-- A new deadline changes no value. -/
theorem value_expire (k j : K) (ttlSeconds : ℕ) (s : Redis K V) :
    (redisExec (.expire k ttlSeconds) s).2.value j = s.value j := by
  by_cases h : j = k
  · subst h
    show (s.put j _).value j = s.value j
    rw [Redis.value_put_self, Option.map_map]
    rfl
  · exact Redis.value_put_of_ne h _

/-- **What a key holds after a command**: what it held, or what the command wrote. -/
theorem value_redisExec {c : RedisCmd K V} {s : Redis K V} {k : K} {v : V}
    (h : (redisExec c s).2.value k = some v) :
    s.value k = some v ∨ (∃ ttlSeconds, c = .set k v ttlSeconds) ∨
      (∃ ttlSeconds, c = .setIfAbsent k v ttlSeconds) ∨ c = .incr k := by
  by_cases hk : k ∈ c.writes
  · cases c with
    | get j => cases hk
    | ttl j => cases hk
    | set j x ttlSeconds =>
        obtain rfl := List.mem_singleton.mp hk
        have hx : some x = some v := (Redis.value_put_self s k _).symm.trans h
        rw [Option.some.inj hx]
        exact .inr (.inl ⟨ttlSeconds, rfl⟩)
    | setIfAbsent j x ttlSeconds =>
        obtain rfl := List.mem_singleton.mp hk
        rw [redisExec] at h
        split at h
        · exact .inl h
        · have hx : some x = some v := (Redis.value_put_self s k _).symm.trans h
          rw [Option.some.inj hx]
          exact .inr (.inr (.inl ⟨ttlSeconds, rfl⟩))
    | incr j =>
        obtain rfl := List.mem_singleton.mp hk
        exact .inr (.inr (.inr rfl))
    | expire j ttlSeconds =>
        rw [value_expire] at h
        exact .inl h
    | delete ks =>
        have hnone : (redisExec (.delete ks) s).2.value k = none :=
          congrArg (Option.map Entry.value) (if_pos hk)
        rw [hnone] at h
        cases h
    | deleteIfValue j x =>
        obtain rfl := List.mem_singleton.mp hk
        change (if s.value k = some x then s.put k none else s).value k = some v at h
        split at h
        · rw [Redis.value_put_self] at h
          cases h
        · exact .inl h
    | take j =>
        obtain rfl := List.mem_singleton.mp hk
        have hnone : (redisExec (.take k) s).2.value k = none := Redis.value_put_self s k none
        rw [hnone] at h
        cases h
  · rw [value_redisExec_of_notMem hk] at h
    exact .inl h

omit [DecidableEq V] [Counter V] in
/-- What an eviction needs and does. -/
theorem evict_some {s s' : Redis K V} {k : K} (h : evict s k = some s') :
    ∃ e d, s.keys k = some e ∧ e.deadline = some d ∧ d ≤ s.clock ∧ s' = s.put k none := by
  unfold evict at h
  split at h
  · rename_i v d hk
    split at h
    · rename_i hdue
      exact ⟨_, d, hk, rfl, hdue, (Option.some.inj h).symm⟩
    · cases h
  · cases h

omit [DecidableEq V] [Counter V] in
/-- An eviction leaves nothing new under any key. -/
theorem value_evict {s s' : Redis K V} {k : K} (h : evict s k = some s') (j : K) {v : V}
    (hv : s'.value j = some v) : s.value j = some v := by
  obtain ⟨e, d, _, _, _, rfl⟩ := evict_some h
  by_cases hj : j = k
  · rw [hj, Redis.value_put_self] at hv
    cases hv
  · rwa [Redis.value_put_of_ne hj] at hv

end TransportBackend.RedisStore
