import Mathlib.Tactic

/-!
# Tables with a unique key

A database table as the list of its rows together with the proof that no two rows share a key, so
a table that breaks its unique index cannot be built.  Reads go through `get`, writes through
`put`, and every later proof uses only what the two say of each other:

* `get_put` — a write is seen under its own key and changes nothing under any other;
* `mem_rows` — the rows are exactly what `get` finds;
* `rows_put_of_get` — a row with a new key comes last;
* `sum_put` — what a write does to a sum over the rows;
* `get_erase` — a deletion is seen under its own key and changes nothing under any other;
* `get_map` — an update of every row is seen under every key;
* `get_fresh` — a table over the naturals always has an unused key.
-/

namespace TransportBackend.KeyedTable

variable {κ α : Type}

/-- The rows of a table with unique keys. -/
structure Table {κ α : Type} (key : α → κ) where
  rows : List α
  nodup : (rows.map key).Nodup

namespace Table

variable {key : α → κ}

/-- The table with no rows. -/
def empty : Table key := ⟨[], List.nodup_nil⟩

instance : Inhabited (Table key) := ⟨empty⟩

/-- A condition that no two rows meet picks at most one row. -/
theorem length_filter_le_one {t : Table key} {p : α → Bool}
    (h : ∀ a ∈ t.rows, p a = true → ∀ b ∈ t.rows, p b = true → a = b) :
    (t.rows.filter p).length ≤ 1 := by
  have hnodup : (t.rows.filter p).Nodup := (List.Nodup.of_map _ t.nodup).filter p
  cases hl : t.rows.filter p with
  | nil => simp
  | cons a l =>
      cases l with
      | nil => simp
      | cons b l =>
          have ha : a ∈ t.rows.filter p := by simp [hl]
          have hb : b ∈ t.rows.filter p := by simp [hl]
          rw [List.mem_filter] at ha hb
          rw [hl, h a ha.1 ha.2 b hb.1 hb.2] at hnodup
          simp at hnodup

variable [DecidableEq κ]

/-- The row with this key. -/
def get (t : Table key) (k : κ) : Option α := t.rows.find? (fun a => key a = k)

/-- The rows with `a` in the place of the row with its key, or at the end. -/
def putRows (key : α → κ) (a : α) : List α → List α
  | [] => [a]
  | b :: bs => if key b = key a then a :: bs else b :: putRows key a bs

theorem mem_map_putRows {a : α} {bs : List α} {k : κ} :
    k ∈ (putRows key a bs).map key ↔ k = key a ∨ k ∈ bs.map key := by
  induction bs with
  | nil => simp [putRows]
  | cons b bs ih =>
      by_cases h : key b = key a
      · simp [putRows, h]
      · simp only [putRows, h, if_false, List.map_cons, List.mem_cons, ih]
        tauto

theorem nodup_putRows {a : α} {bs : List α} (h : (bs.map key).Nodup) :
    ((putRows key a bs).map key).Nodup := by
  induction bs with
  | nil => simp [putRows]
  | cons b bs ih =>
      rw [List.map_cons, List.nodup_cons] at h
      by_cases hb : key b = key a
      · simp only [putRows, hb, if_true, List.map_cons, List.nodup_cons]
        exact ⟨hb ▸ h.1, h.2⟩
      · rw [putRows, if_neg hb, List.map_cons, List.nodup_cons, mem_map_putRows]
        exact ⟨fun hk => hk.elim hb h.1, ih h.2⟩

/-- The table with `a` written under its key. -/
def put (t : Table key) (a : α) : Table key := ⟨putRows key a t.rows, nodup_putRows t.nodup⟩

theorem find?_putRows (a : α) (bs : List α) (k : κ) :
    (putRows key a bs).find? (fun b => key b = k) =
      if k = key a then some a else bs.find? (fun b => key b = k) := by
  induction bs with
  | nil =>
      by_cases h : k = key a
      · simp [putRows, h]
      · simp [putRows, h, eq_comm]
  | cons b bs ih =>
      by_cases hb : key b = key a
      · by_cases hk : k = key a
        · simp [putRows, hb, hk]
        · have hak : ¬key a = k := fun h => hk h.symm
          simp [putRows, hb, hk, hak]
      · by_cases hk : k = key a
        · subst hk
          simp [putRows, hb, ih]
        · by_cases hbk : key b = k
          · simp [putRows, hbk, hk]
          · simp [putRows, hb, hbk, ih]

/-- **A write is seen under its own key only.** -/
theorem get_put (t : Table key) (a : α) (k : κ) :
    (t.put a).get k = if k = key a then some a else t.get k := find?_putRows a t.rows k

@[simp] theorem get_put_self (t : Table key) (a : α) : (t.put a).get (key a) = some a := by
  rw [get_put, if_pos rfl]

theorem get_put_of_ne {t : Table key} {a : α} {k : κ} (h : k ≠ key a) :
    (t.put a).get k = t.get k := by
  rw [get_put, if_neg h]

@[simp] theorem get_empty (k : κ) : (empty : Table key).get k = none := rfl

theorem key_of_get {t : Table key} {k : κ} {a : α} (h : t.get k = some a) : key a = k := by
  simpa using List.find?_some h

theorem mem_of_get {t : Table key} {k : κ} {a : α} (h : t.get k = some a) : a ∈ t.rows :=
  List.mem_of_find?_eq_some h

theorem find?_of_mem {bs : List α} {a : α} (hn : (bs.map key).Nodup) (ha : a ∈ bs) :
    bs.find? (fun b => key b = key a) = some a := by
  induction bs with
  | nil => simp at ha
  | cons b bs ih =>
      rw [List.map_cons, List.nodup_cons] at hn
      rcases List.mem_cons.mp ha with rfl | ha
      · simp
      · have hne : ¬key b = key a := fun h => hn.1 (h ▸ List.mem_map_of_mem ha)
        rw [List.find?_cons, decide_eq_false hne]
        exact ih hn.2 ha

/-- **The rows are what `get` finds.** -/
theorem mem_rows {t : Table key} {a : α} : a ∈ t.rows ↔ t.get (key a) = some a :=
  ⟨find?_of_mem t.nodup, mem_of_get⟩

theorem eq_of_key {t : Table key} {a b : α} (ha : a ∈ t.rows) (hb : b ∈ t.rows)
    (h : key a = key b) : a = b := by
  have ha' := mem_rows.mp ha
  rw [h, mem_rows.mp hb] at ha'
  exact (Option.some.inj ha').symm

theorem mem_put {t : Table key} {a b : α} :
    b ∈ (t.put a).rows ↔ b = a ∨ (key b ≠ key a ∧ b ∈ t.rows) := by
  rw [mem_rows, get_put]
  by_cases h : key b = key a
  · simp only [h, if_true, Option.some.injEq]
    exact ⟨fun hab => .inl hab.symm, fun hab => hab.elim Eq.symm (fun hne => absurd rfl hne.1)⟩
  · rw [if_neg h, ← mem_rows]
    exact ⟨fun hb => .inr ⟨h, hb⟩, fun hb => hb.elim (fun hab => absurd (congrArg key hab) h)
      (fun hb => hb.2)⟩

/-- A row with a new key comes last. -/
theorem rows_put_of_get {t : Table key} {a : α} (h : t.get (key a) = none) :
    (t.put a).rows = t.rows ++ [a] := by
  show putRows key a t.rows = t.rows ++ [a]
  have hnone : ∀ b ∈ t.rows, key b ≠ key a := by
    intro b hb heq
    exact absurd (decide_eq_true heq) (List.find?_eq_none.mp h b hb)
  generalize t.rows = bs at hnone
  induction bs with
  | nil => rfl
  | cons b bs ih =>
      rw [putRows, if_neg (hnone b (by simp)), ih fun c hc => hnone c (by simp [hc])]
      rfl

/-- **A write changes a sum over the rows** by the new row less the one it replaces. -/
theorem sum_put (t : Table key) (a : α) (f : α → ℤ) :
    ((t.put a).rows.map f).sum = (t.rows.map f).sum + f a - ((t.get (key a)).map f).getD 0 := by
  show ((putRows key a t.rows).map f).sum =
    (t.rows.map f).sum + f a - ((t.rows.find? fun b => key b = key a).map f).getD 0
  generalize t.rows = bs
  induction bs with
  | nil => simp [putRows]
  | cons b bs ih =>
      by_cases h : key b = key a
      · simp [putRows, h]
        ring
      · simp only [putRows, h, if_false, List.map_cons, List.sum_cons, ih, List.find?_cons,
          decide_false]
        ring

/-- The table without the row of this key. -/
def erase (t : Table key) (k : κ) : Table key where
  rows := t.rows.filter fun a => key a ≠ k
  nodup := t.nodup.sublist (List.filter_sublist.map key)

theorem mem_erase {t : Table key} {k : κ} {a : α} : a ∈ (t.erase k).rows ↔ key a ≠ k ∧ a ∈ t.rows := by
  simp [erase, and_comm]

/-- **A deletion is seen under its own key only.** -/
theorem get_erase (t : Table key) (k k' : κ) :
    (t.erase k).get k' = if k' = k then none else t.get k' := by
  by_cases h : k' = k
  · rw [if_pos h]
    by_contra hsome
    obtain ⟨a, ha⟩ := Option.ne_none_iff_exists'.mp hsome
    exact (mem_erase.mp (mem_of_get ha)).1 ((key_of_get ha).trans h)
  · rw [if_neg h]
    cases ha : t.get k' with
    | none =>
        by_contra hsome
        obtain ⟨a, ha'⟩ := Option.ne_none_iff_exists'.mp hsome
        have hmem := mem_rows.mp (mem_erase.mp (mem_of_get ha')).2
        rw [key_of_get ha', ha] at hmem
        cases hmem
    | some a =>
        have hkey := key_of_get ha
        have hmem : a ∈ (t.erase k).rows := mem_erase.mpr ⟨hkey ▸ h, mem_of_get ha⟩
        have hget := mem_rows.mp hmem
        rwa [hkey] at hget

/-! ### Updates of every row -/

/-- The table with `f` applied to every row; `f` keeps the keys. -/
def map (t : Table key) (f : α → α) (hf : ∀ a, key (f a) = key a) : Table key where
  rows := t.rows.map f
  nodup := by
    rw [List.map_map, show key ∘ f = key from funext hf]
    exact t.nodup

theorem get_map (t : Table key) (f : α → α) (hf : ∀ a, key (f a) = key a) (k : κ) :
    (t.map f hf).get k = (t.get k).map f := by
  show (t.rows.map f).find? (fun a => key a = k) = (t.rows.find? fun a => key a = k).map f
  rw [List.find?_map, show (fun a => decide (key a = k)) ∘ f = fun a => decide (key a = k) from
    funext fun a => by simp [hf]]

end Table

/-! ### Fresh keys -/

/-- A key no row has: one past the largest. -/
def Table.fresh {key : α → ℕ} (t : Table key) : ℕ := (t.rows.map key).foldr max 0 + 1

theorem le_foldr_max {k : ℕ} {ks : List ℕ} (h : k ∈ ks) : k ≤ ks.foldr max 0 := by
  induction ks with
  | nil => simp at h
  | cons a as ih =>
      rw [List.foldr_cons]
      rcases List.mem_cons.mp h with rfl | h
      · exact le_max_left _ _
      · exact (ih h).trans (le_max_right _ _)

theorem Table.get_fresh {key : α → ℕ} (t : Table key) : t.get t.fresh = none := by
  by_contra h
  obtain ⟨a, ha⟩ := Option.ne_none_iff_exists'.mp h
  have hmem := le_foldr_max (List.mem_map_of_mem (f := key) (Table.mem_of_get ha))
  rw [Table.key_of_get ha, Table.fresh] at hmem
  omega

end TransportBackend.KeyedTable
