import TransportBackend.InviteWindows

/-!
# Who is invited, and by whom

Calls of any number of inviters, sign-ins, removals and sweeps go on side by side.  A transaction that invites decides
by what it has read, and nothing locks the rows between; as long as nobody else invites or brings in the number in
between, what it read still stands when it commits.

* `Sound` — the indexes hold, every invite has its account, and no two invites of an account wait;
* `Rests` — what a commit rests on, in the tables;
* `sound_run` — **the tables stay sound**, and what every call has read and nobody disturbed stands;
* `one_inviter` — **one inviter at a time** waits for an account;
* `came_in_stays` — **whoever came in stays**: its invite stays used, and its account is not deleted;
* `one_after_another` — the same of calls one after another, with no condition on what they have read.
-/

namespace TransportBackend.InviteRuns

open TransportBackend.AtomicProgram
open TransportBackend.InterleavedRun
open TransportBackend.InviteAges
open TransportBackend.InviteService
open TransportBackend.InviteStore
open TransportBackend.InviteWindows
open TransportBackend.KeyedTable
open TransportBackend.ReadWindows

/-! ### The tables -/

section Tables

variable (k : Kind) (hours : ℕ)

/-- Every invite has its account, with the number and the role. -/
def Owned (s : Store) : Prop :=
  ∀ i ∈ s.invites.rows, ∃ u, s.users.get i.invitee = some u ∧ u.mobile = i.mobile ∧ k.role ∈ u.activeRoles

/-- No two invites of an account wait. -/
def Alone (s : Store) : Prop :=
  ∀ i ∈ s.invites.rows, ∀ j ∈ s.invites.rows, i.invitee = j.invitee →
    isInviteWaiting hours s.clock i = true → isInviteWaiting hours s.clock j = true → i = j

structure Sound (s : Store) : Prop where
  indexed : Indexed k s
  owned : Owned k s
  alone : Alone hours s

/-- What a read says of the tables. -/
def holds : Key → Read → Store → Prop
  | .time t, .time, s => t ≤ s.clock
  | .account mobile, .account id member, s => id < s.nextId ∧ ∀ u, s.users.get id = some u →
      u.mobile = mobile ∧ (member = true → k.role ∈ u.activeRoles)
  | .row id, .row inviter mobile, s => id < s.nextId ∧ ∀ i, s.invites.get id = some i →
      i.mobile = mobile ∧ (k ≠ .company → i.inviter = inviter)
  | .rows mobile, .rows invites, s => ∀ i ∈ s.invites.rows, i.mobile = mobile →
      ∃ r ∈ invites, Aged r i ∧ (i.usedAt.isSome = true → r.usedAt.isSome = true)
  | .lone _, .rows invites, s => Lone hours s.clock invites
  | _, _, _ => False

/-- What a commit rests on, in the tables. -/
structure Rests (w : Commit) (s : Store) : Prop where
  known : Known k w s
  own : ∀ id, (w.invite = .keep id ∨ ∃ token t, w.invite = .renew id token t) → ∀ i, s.invites.get id = some i →
    i.mobile = w.mobile ∧ (k ≠ .company → i.inviter = w.inviter)
  others : (∀ id, w.invite ≠ .keep id) → ∀ i ∈ s.invites.rows, i.mobile = w.mobile →
    isInviteWaiting hours s.clock i = true → i.inviter = w.inviter
  unused : (∀ id, w.invite ≠ .keep id) → ∀ i ∈ s.invites.rows, i.mobile = w.mobile →
    (k = .company ∨ i.inviter = w.inviter) → i.usedAt = none

end Tables

variable {k : Kind} {hours : ℕ} {s s' : Store}

theorem Lone.later {t t' : ℕ} {invites : List Invite} (h : Lone hours t invites) (ht : t ≤ t') : Lone hours t' invites :=
  fun i hi j hj hwi hwj => h i hi j hj ((Aged.refl i).waiting ht hwi) ((Aged.refl j).waiting ht hwj)

/-- Two invites for one account are for one number. -/
theorem Owned.mobile (h : Owned k s) {i j : Invite} (hi : i ∈ s.invites.rows) (hj : j ∈ s.invites.rows)
    (hsame : i.invitee = j.invitee) : i.mobile = j.mobile := by
  obtain ⟨u, hu, hmobile, _⟩ := h i hi
  obtain ⟨v, hv, hmobile', _⟩ := h j hj
  rw [hsame, hv] at hu
  rw [← hmobile, ← hmobile', Option.some.inj hu]

/-- Two invites for one number are for one account. -/
theorem Sound.invitee (h : Sound k hours s) {i j : Invite} (hi : i ∈ s.invites.rows) (hj : j ∈ s.invites.rows)
    (hsame : i.mobile = j.mobile) : i.invitee = j.invitee := by
  obtain ⟨u, hu, hmobile, _⟩ := h.owned i hi
  obtain ⟨v, hv, hmobile', _⟩ := h.owned j hj
  have huv := h.indexed.mobiles u (Table.mem_of_get hu) v (Table.mem_of_get hv)
    (hmobile.trans (hsame.trans hmobile'.symm))
  rw [← Table.key_of_get hu, ← Table.key_of_get hv, huv]

/-! ### What ages stays sound -/

section Ages

variable {calm : Mobile → Prop}

theorem owned_ages (h : Ages calm s s') (hs : Owned k s) : Owned k s' := by
  intro i' hi'
  obtain ⟨i, hi, haged, _⟩ := h.back i' hi'
  obtain ⟨u, hu, hmobile, hrole⟩ := hs i hi
  have huid : u.id = i'.invitee := (Table.key_of_get hu).trans haged.invitee.symm
  rcases h.grown u (Table.mem_of_get hu) with ⟨u', hu', hgrown⟩ | ⟨_, hnone⟩
  · refine ⟨u', ?_, ?_, hgrown.roles hrole⟩
    · rw [← huid, ← hgrown.id]
      exact Table.mem_rows.mp hu'
    · rw [hgrown.mobile, hmobile, haged.mobile]
  · exact absurd huid.symm (hnone i' hi')

theorem alone_ages (h : Ages calm s s') (hs : Alone hours s) : Alone hours s' := by
  intro i' hi' j' hj' hsame hwi hwj
  obtain ⟨i, hi, haged, _⟩ := h.back i' hi'
  obtain ⟨j, hj, haged', _⟩ := h.back j' hj'
  rw [haged.invitee, haged'.invitee] at hsame
  obtain rfl := hs i hi j hj hsame (haged.waiting h.clock hwi) (haged'.waiting h.clock hwj)
  exact Table.eq_of_key hi' hj' (haged.id.trans haged'.id.symm)

theorem sound_ages (h : Ages calm s s') (hs : Sound k hours s) : Sound k hours s' :=
  ⟨h.indexed hs.indexed, owned_ages h hs.owned, alone_ages h hs.alone⟩

/-- What was read stands when the tables age, and nobody came in with a number whose rows were read. -/
theorem holds_ages (h : Ages calm s s') {key : Key} {v : Read} (hcalm : ∀ mobile, key = .rows mobile → calm mobile)
    (hv : holds k hours key v s) : holds k hours key v s' := by
  unfold holds at hv ⊢
  split at hv
  · exact le_trans hv h.clock
  · refine ⟨hv.1.trans_le h.nextId, fun u' hu' => ?_⟩
    rcases h.users u' (Table.mem_of_get hu') with ⟨u, hu, hgrown⟩ | ⟨hle, _⟩
    · have hget := Table.mem_rows.mp hu
      rw [← hgrown.id, Table.key_of_get hu'] at hget
      obtain ⟨hmobile, hrole⟩ := hv.2 u hget
      exact ⟨hgrown.mobile.trans hmobile, fun hmember => hgrown.roles (hrole hmember)⟩
    · rw [Table.key_of_get hu'] at hle
      exact absurd hv.1 (Nat.not_lt.mpr hle)
  · refine ⟨hv.1.trans_le h.nextId, fun i' hi' => ?_⟩
    obtain ⟨i, hi, haged, _⟩ := h.back i' (Table.mem_of_get hi')
    have hget := Table.mem_rows.mp hi
    rw [← haged.id, Table.key_of_get hi'] at hget
    rw [haged.mobile, haged.inviter]
    exact hv.2 i hget
  · rename_i mobile invites
    intro i' hi' hmobile
    obtain ⟨i, hi, haged, hunused⟩ := h.back i' hi'
    obtain ⟨r, hr, hri, hrused⟩ := hv i hi (haged.mobile.symm.trans hmobile)
    refine ⟨r, hr, hri.trans haged, fun hused => hrused (hunused ?_ hused)⟩
    rw [hmobile]
    exact hcalm mobile rfl
  · exact Lone.later hv h.clock
  · exact hv.elim

end Ages

/-- Whoever came in by an invite is still in, and every linked account is there. -/
structure Remains (s s' : Store) : Prop where
  came : ∀ i ∈ s.invites.rows, i.usedAt.isSome = true → ∃ i' ∈ s'.invites.rows, Aged i i'
  linked : ∀ u ∈ s.users.rows, u.linked = true → ∃ u' ∈ s'.users.rows, Grown u u'

theorem Remains.refl (s : Store) : Remains s s := ⟨fun i hi _ => ⟨i, hi, .refl i⟩, fun u hu _ => ⟨u, hu, .refl u⟩⟩

theorem Remains.trans {s t r : Store} (h : Remains s t) (h' : Remains t r) : Remains s r where
  came := fun i hi hused => by
    obtain ⟨j, hj, hij⟩ := h.came i hi hused
    obtain ⟨l, hl, hjl⟩ := h'.came j hj (hij.used hused)
    exact ⟨l, hl, hij.trans hjl⟩
  linked := fun u hu hlinked => by
    obtain ⟨v, hv, huv⟩ := h.linked u hu hlinked
    obtain ⟨x, hx, hvx⟩ := h'.linked v hv (huv.linked hlinked)
    exact ⟨x, hx, huv.trans hvx⟩

theorem remains_ages {calm : Mobile → Prop} (h : Ages calm s s') : Remains s s' := by
  refine ⟨h.came, fun u hu hlinked => ?_⟩
  rcases h.grown u hu with hgrown | ⟨hnot, _⟩
  · exact hgrown
  · rw [hlinked] at hnot
    cases hnot

/-! ### What a commit writes -/

section Written

variable {w : Commit} {d id : ℕ}

theorem ne_keep_of_renew {token : String} {t : ℕ} (h : w.invite = .renew id token t) (x : ℕ) : w.invite ≠ .keep x := by
  rw [h]
  exact fun hkeep => by cases hkeep

theorem ne_keep_of_insert {token : String} (h : w.invite = .insert token) (x : ℕ) : w.invite ≠ .keep x := by
  rw [h]
  exact fun hkeep => by cases hkeep

theorem owned_written (h : Written k w d id s s') (hs : Owned k s)
    (howner : ∀ u, s.users.get d = some u →
      u.mobile = w.mobile ∧ ((∃ token, w.invite = .insert token) → k.role ∈ u.activeRoles)) : Owned k s' := by
  cases h with
  | kept => exact hs
  | renewed i token t hrenew hget =>
      intro j hj
      rcases Table.mem_put.mp hj with rfl | ⟨_, hj⟩
      · exact hs i (Table.mem_of_get hget)
      · exact hs j hj
  | inserted token hinsert hid hd hfree =>
      intro j hj
      rcases Table.mem_put.mp hj with rfl | ⟨_, hj⟩
      · obtain ⟨u, hu⟩ := Option.isSome_iff_exists.mp hd
        obtain ⟨hmobile, hrole⟩ := howner u hu
        exact ⟨u, hu, hmobile, hrole ⟨token, hinsert⟩⟩
      · exact hs j hj

/-- **The invite a transaction writes is the only one that waits.** -/
theorem alone_written (h : Written k w d id s s') (hs : Sound k hours s)
    (howner : ∀ u, s.users.get d = some u → u.mobile = w.mobile)
    (hown : ∀ token t, w.invite = .renew id token t → ∀ i, s.invites.get id = some i →
      i.mobile = w.mobile ∧ (k ≠ .company → i.inviter = w.inviter))
    (hothers : (∀ id, w.invite ≠ .keep id) → ∀ i ∈ s.invites.rows, i.mobile = w.mobile →
      isInviteWaiting hours s.clock i = true → i.inviter = w.inviter) : Alone hours s' := by
  cases h with
  | kept => exact hs.alone
  | renewed i token t hrenew hget =>
      have hi : i ∈ s.invites.rows := Table.mem_of_get hget
      obtain ⟨hmobile, hinviter⟩ := hown token t hrenew i hget
      have hmine : ∀ j ∈ s.invites.rows, j.invitee = i.invitee → isInviteWaiting hours s.clock j = true → j = i := by
        intro j hj hsame hwaiting
        have hj' := hothers (ne_keep_of_renew hrenew) j hj ((hs.owned.mobile hj hi hsame).trans hmobile) hwaiting
        refine hs.indexed.unique j hj i hi ?_
        unfold Kind.unique
        by_cases hk : k = .company
        · rw [if_pos hk, if_pos hk, hsame]
        · rw [if_neg hk, if_neg hk, hj', hinviter hk, hsame]
      intro j hj l hl hsame hwj hwl
      rcases Table.mem_put.mp hj with hji | ⟨hne, hj'⟩ <;> rcases Table.mem_put.mp hl with hli | ⟨hne', hl'⟩
      · rw [hji, hli]
      · rw [hji] at hsame
        exact absurd (congrArg Invite.id (hmine l hl' hsame.symm hwl)) hne'
      · rw [hli] at hsame
        exact absurd (congrArg Invite.id (hmine j hj' hsame hwj)) hne
      · exact hs.alone j hj' l hl' hsame hwj hwl
  | inserted token hinsert hid hd hfree =>
      have hnone : ∀ j ∈ s.invites.rows, j.invitee = d → isInviteWaiting hours s.clock j = true → False := by
        intro j hj hsame hwaiting
        obtain ⟨u, hu, hmobile, _⟩ := hs.owned j hj
        rw [hsame] at hu
        have hj' := hothers (ne_keep_of_insert hinsert) j hj (hmobile.symm.trans (howner u hu)) hwaiting
        refine hfree j hj ?_
        unfold Kind.unique Store.insertedRow
        by_cases hk : k = .company
        · rw [if_pos hk, if_pos hk, hsame]
        · rw [if_neg hk, if_neg hk, hj', hsame]
      intro j hj l hl hsame hwj hwl
      rcases Table.mem_put.mp hj with hji | ⟨_, hj'⟩ <;> rcases Table.mem_put.mp hl with hli | ⟨_, hl'⟩
      · rw [hji, hli]
      · rw [hji] at hsame
        exact (hnone l hl' hsame.symm hwl).elim
      · rw [hli] at hsame
        exact (hnone j hj' hsame hwj).elim
      · exact hs.alone j hj' l hl' hsame hwj hwl

/-- What was read of other numbers stands. -/
theorem holds_written (h : Written k w d id s s')
    (hown : ∀ token t, w.invite = .renew id token t → ∀ i, s.invites.get id = some i → i.mobile = w.mobile)
    {key : Key} {v : Read} (hkey : key = .rows w.mobile → ∃ id, w.invite = .keep id) (hv : holds k hours key v s) :
    holds k hours key v s' := by
  cases h with
  | kept => exact hv
  | renewed i token t hrenew hget =>
      have hi : i ∈ s.invites.rows := Table.mem_of_get hget
      have hid : i.id = id := Table.key_of_get hget
      unfold holds at hv ⊢
      split at hv
      · exact hv
      · exact hv
      · refine ⟨hv.1, fun j hj => ?_⟩
        rw [Table.get_put] at hj
        split at hj
        · rename_i heq
          obtain rfl := Option.some.inj hj
          obtain ⟨hmobile, hinviter⟩ := hv.2 i (by rw [heq]; exact hid.symm ▸ hget)
          refine ⟨hmobile, fun hk => ?_⟩
          show (if k = .company then w.inviter else i.inviter) = _
          rw [if_neg hk]
          exact hinviter hk
        · exact hv.2 j hj
      · rename_i mobile invites
        intro j hj hmobile
        rcases Table.mem_put.mp hj with rfl | ⟨_, hj⟩
        · have hsame : i.mobile = w.mobile := hown token t hrenew i hget
          have hmobile' : i.mobile = mobile := hmobile
          obtain ⟨x, hkeep⟩ := hkey (by rw [← hmobile', hsame])
          exact absurd hkeep (ne_keep_of_renew hrenew x)
        · exact hv j hj hmobile
      · exact hv
      · exact hv.elim
  | inserted token hinsert hid hd hfree =>
      unfold holds at hv ⊢
      split at hv
      · exact hv
      · exact ⟨hv.1.trans (Nat.lt_succ_self _), hv.2⟩
      · refine ⟨hv.1.trans (Nat.lt_succ_self _), fun j hj => ?_⟩
        have hold : ∀ x, x < s.nextId → (s.invites.put (Store.insertedRow w s.nextId d token)).get x = s.invites.get x :=
          fun x hx => Table.get_put_of_ne (Nat.ne_of_lt hx)
        exact hv.2 j ((hold _ hv.1).symm.trans hj)
      · rename_i mobile invites
        intro j hj hmobile
        rcases Table.mem_put.mp hj with rfl | ⟨_, hj⟩
        · have hmobile' : w.mobile = mobile := hmobile
          obtain ⟨x, hkeep⟩ := hkey (by rw [hmobile'])
          exact absurd hkeep (ne_keep_of_insert hinsert x)
        · exact hv j hj hmobile
      · exact hv
      · exact hv.elim

end Written

/-! ### One commit -/

section Commit

variable {w : Commit}

theorem renewed_own (h : Rests k hours w s) {id : ℕ} (token : String) (t : ℕ) (hrenew : w.invite = .renew id token t)
    (i : Invite) (hi : s.invites.get id = some i) : i.mobile = w.mobile ∧ (k ≠ .company → i.inviter = w.inviter) :=
  h.own id (.inr ⟨token, t, hrenew⟩) i hi

/-- **A commit that rests on what it has read keeps the tables sound.** -/
theorem sound_commit (hs : Sound k hours s) (h : Rests k hours w s) : Sound k hours (s.commit k w).2 := by
  rcases commit_cases hs.indexed w with hsame | ⟨d, id, s₁, s₂, hages, hinvites, hclock, howner, hwritten, hafter⟩
  · rw [hsame]
    exact hs
  · have hs₁ : Sound k hours s₁ := sound_ages (hages fun _ => True) hs
    refine sound_ages hafter ⟨hwritten.indexed hs₁.indexed, owned_written hwritten hs₁.owned (howner h.known), ?_⟩
    refine alone_written hwritten hs₁ (fun u hu => (howner h.known u hu).1) ?_ ?_
    · rw [hinvites]
      exact fun token t hrenew => renewed_own h token t hrenew
    · rw [hinvites, hclock]
      exact h.others

/-- The direct registration of a commit is of its own number. -/
theorem direct_calm (h : Rests k hours w s) {d id : ℕ} {s₁ s₂ : Store} (hinvites : s₁.invites = s.invites)
    (hwritten : Written k w d id s₁ s₂) {mobile : Mobile} (hne : mobile ≠ w.mobile) :
    ∀ i, s₂.invites.get id = some i → i.mobile ≠ mobile := by
  have hown : ∀ i, s₁.invites.get id = some i →
      (w.invite = .keep id ∨ ∃ token t, w.invite = .renew id token t) → i.mobile = w.mobile := by
    intro i hi hwrite
    rw [hinvites] at hi
    exact (h.own id hwrite i hi).1
  intro i hi hsame
  refine hne (hsame.symm.trans ?_)
  cases hwritten with
  | kept hwrite => exact hown i hi hwrite
  | renewed j token t hrenew hget =>
      have hid : j.id = id := Table.key_of_get hget
      have hself : (s₁.invites.put (Store.renewedRow k w j token t)).get j.id = some (Store.renewedRow k w j token t) :=
        Table.get_put_self _ _
      rw [hid] at hself
      obtain rfl : Store.renewedRow k w j token t = i := Option.some.inj (hself.symm.trans hi)
      exact hown j hget (.inr ⟨token, t, hrenew⟩)
  | inserted token hinsert hid hd hfree =>
      subst hid
      have hself : (s₁.invites.put (Store.insertedRow w s₁.nextId d token)).get s₁.nextId =
          some (Store.insertedRow w s₁.nextId d token) := Table.get_put_self _ _
      obtain rfl : Store.insertedRow w s₁.nextId d token = i := Option.some.inj (hself.symm.trans hi)
      rfl

theorem undisturbed_commit {mobile : Mobile} (h : disturbs (.commit w) (.rows mobile) = false) :
    mobile ≠ w.mobile ∨ (w.direct = none ∧ ∃ id, w.invite = .keep id) := by
  by_cases hne : mobile = w.mobile
  · refine .inr ?_
    have hwrites : ¬Writes w := by
      intro hwrites
      simp [disturbs, hne, hwrites] at h
    unfold Writes at hwrites
    push Not at hwrites
    exact hwrites
  · exact .inl hne

/-- What a commit does not disturb stands. -/
theorem holds_commit (hs : Sound k hours s) (h : Rests k hours w s) {key : Key} {v : Read}
    (hcalm : disturbs (.commit w) key = false) (hv : holds k hours key v s) : holds k hours key v (s.commit k w).2 := by
  rcases commit_cases hs.indexed w with hsame | ⟨d, id, s₁, s₂, hages, hinvites, hclock, howner, hwritten, hafter⟩
  · rw [hsame]
    exact hv
  · have hv₁ : holds k hours key v s₁ := holds_ages (hages fun _ => True) (fun _ _ => trivial) hv
    refine holds_ages hafter (fun mobile hkey => ?_) (holds_written hwritten ?_ (fun hkey => ?_) hv₁)
    · subst hkey
      rcases undisturbed_commit hcalm with hne | ⟨hnone, _⟩
      · exact .inr (direct_calm h hinvites hwritten hne)
      · exact .inl hnone
    · rw [hinvites]
      exact fun token t hrenew i hi => (renewed_own h token t hrenew i hi).1
    · subst hkey
      rcases undisturbed_commit hcalm with hne | ⟨_, hkeep⟩
      · exact absurd rfl hne
      · exact hkeep

/-- **A commit takes nobody back out**, deletes no account, and unlinks none. -/
theorem remains_commit (hs : Sound k hours s) (h : Rests k hours w s) : Remains s (s.commit k w).2 := by
  rcases commit_cases hs.indexed w with hsame | ⟨d, id, s₁, s₂, hages, hinvites, hclock, howner, hwritten, hafter⟩
  · rw [hsame]
    exact .refl s
  · refine .trans (.trans (remains_ages (hages fun _ => True)) ⟨fun i hi hused => ?_, fun u hu _ => ?_⟩)
      (remains_ages hafter)
    · refine ⟨i, ?_, .refl i⟩
      cases hwritten with
      | kept => exact hi
      | renewed j token t hrenew hget =>
          refine Table.mem_put.mpr (.inr ⟨fun hsame => ?_, hi⟩)
          obtain rfl : i = j := Table.eq_of_key hi (Table.mem_of_get hget) hsame
          rw [hinvites] at hget
          obtain ⟨hmobile, hinviter⟩ := renewed_own h token t hrenew i hget
          have hmine : k = .company ∨ i.inviter = w.inviter := by
            by_cases hk : k = .company
            · exact .inl hk
            · exact .inr (hinviter hk)
          -- a row that is written again was read unused, and nobody came in since
          rw [h.unused (ne_keep_of_renew hrenew) i (Table.mem_of_get hget) hmobile hmine] at hused
          cases hused
      | inserted token hinsert hid hd hfree =>
          have hs₁ : Indexed k s₁ := (hages fun _ => True).indexed hs.indexed
          exact Table.mem_put.mpr (.inr ⟨Nat.ne_of_lt (hs₁.invites i hi), hi⟩)
    · refine ⟨u, ?_, .refl u⟩
      cases hwritten with
      | kept => exact hu
      | renewed => exact hu
      | inserted => exact hu

end Commit

/-! ### One statement -/

section Statement

variable {q : Held Key Read} {c : InviteCmd}

/-- What was read stands, whatever is stale. -/
def Standing (k : Kind) (hours : ℕ) (q : Held Key Read) (stale : Key → Bool) (s : Store) : Prop :=
  ∀ key v, q key = some v → stale key = false → holds k hours key v s

/-- Times, accounts and single rows are never stale. -/
def Steady (stale : Key → Bool) : Prop := ∀ key, (∀ mobile, key ≠ .rows mobile) → stale key = false

variable {stale : Key → Bool}

/-- **What fits rests on the tables**, when what was read still stands. -/
theorem rests_of_fits {w : Commit} (hfits : Fits k hours q w) (hq : Standing k hours q stale s) (hsteady : Steady stale)
    (hfresh : Writes w → (∃ v, q (.rows w.mobile) = some v) → stale (.rows w.mobile) = false) : Rests k hours w s := by
  have hstands : ∀ key v, (∀ mobile, key ≠ .rows mobile) → q key = some v → holds k hours key v s :=
    fun key v hkey hv => hq key v hv (hsteady key hkey)
  have hrow : ∀ {id}, OwnRow k q w.inviter w.mobile id → ∀ i, s.invites.get id = some i →
      i.mobile = w.mobile ∧ (k ≠ .company → i.inviter = w.inviter) := by
    intro id hown i hi
    obtain ⟨c, hc, hinviter⟩ := hown
    have hholds := hstands (.row id) _ (fun _ h => by cases h) hc
    obtain ⟨hmobile, hsame⟩ := hholds.2 i hi
    exact ⟨hmobile, fun hk => (hsame hk).trans (hinviter hk)⟩
  have hcleared : (∀ id, w.invite ≠ .keep id) → ∃ invites, Cleared k hours q w.inviter w.mobile invites ∧
      holds k hours (.rows w.mobile) (.rows invites) s := by
    intro hnot
    obtain ⟨invites, hcleared⟩ := hfits.cleared hnot
    exact ⟨invites, hcleared, hq _ _ hcleared.rows (hfresh (.inr hnot) ⟨_, hcleared.rows⟩)⟩
  refine ⟨?_, fun id hwrite => ?_, fun hnot i hi hmobile hwaiting => ?_, fun hnot i hi hmobile hmine => ?_⟩
  · have haccount := hfits.account
    unfold Known
    cases hw : w.account with
    | keep id approve =>
        rw [hw] at haccount
        obtain ⟨member, hread, hinsert⟩ := haccount
        have hholds := hstands (.account w.mobile) _ (fun _ h => by cases h) hread
        intro u hu
        obtain ⟨hmobile, hrole⟩ := hholds.2 u hu
        exact ⟨hmobile, fun hi => hrole (hinsert hi)⟩
    | giveRole id =>
        rw [hw] at haccount
        obtain ⟨member, hread⟩ := haccount
        have hholds := hstands (.account w.mobile) _ (fun _ h => by cases h) hread
        exact fun u hu => (hholds.2 u hu).1
    | create => exact trivial
  · have hown := hfits.own
    rcases hwrite with hkeep | ⟨token, t, hrenew⟩
    · rw [hkeep] at hown
      exact hrow hown
    · rw [hrenew] at hown
      exact hrow hown
  · obtain ⟨invites, hcleared, hrows⟩ := hcleared hnot
    obtain ⟨r, hr, haged, _⟩ := hrows i hi hmobile
    rcases hcleared.clear r hr with hown | ⟨t, ht, hnotWaiting⟩
    · exact haged.inviter.trans hown
    · have htime : t ≤ s.clock := hstands (.time t) _ (fun _ h => by cases h) ht
      rw [haged.waiting htime hwaiting] at hnotWaiting
      cases hnotWaiting
  · obtain ⟨invites, hcleared, hrows⟩ := hcleared hnot
    obtain ⟨r, hr, haged, hused⟩ := hrows i hi hmobile
    have hunused : r.usedAt = none := hcleared.unused r hr (hmine.imp_right fun h => haged.inviter.symm.trans h)
    cases hi' : i.usedAt with
    | none => rfl
    | some t =>
        rw [hi', hunused] at hused
        cases hused rfl

/-- What an answer is expected to be, it is. -/
theorem answers_exec (hs : Sound k hours s) (hq : Standing k hours q stale s) (hsteady : Steady stale) (chance : Chance)
    (c : InviteCmd) : (windows k hours).answers q c (inviteExec k chance c s).1 := by
  cases c with
  | now => exact fun mobile invites hlone => hq (.lone mobile) _ hlone (hsteady _ fun _ h => by cases h)
  | findUser mobile =>
      intro u hu
      have hfound : s.userOf mobile = some u := hu
      simpa using List.find?_some hfound
  | findInvites u =>
      have hmem : ∀ i ∈ s.invitesOf u.id, i ∈ s.invites.rows := fun i hi => List.mem_of_mem_filter hi
      refine ⟨fun i hi => of_decide_eq_true (List.mem_filter.mp hi).2, fun i hi j hj hid => ?_, fun i hi j hj => ?_⟩
      · exact Table.eq_of_key (hmem i hi) (hmem j hj) hid
      · exact hs.indexed.unique i (hmem i hi) j (hmem j hj)
  | findInvite inviter u =>
      intro i hi
      have hfound := List.find?_some hi
      simp only [Bool.and_eq_true, decide_eq_true_eq] at hfound
      exact hfound.1
  | _ => exact trivial

/-- The account a call has found has the invites that name it. -/
theorem mobile_of_found (hs : Sound k hours s) (hq : Standing k hours q stale s) (hsteady : Steady stale) {u : User}
    (hfound : Found q u) {i : Invite} (hi : i ∈ s.invites.rows) (hinvitee : i.invitee = u.id) : i.mobile = u.mobile := by
  obtain ⟨member, hread⟩ := hfound
  have hholds := hq (.account u.mobile) _ hread (hsteady _ fun _ h => by cases h)
  obtain ⟨v, hv, hmobile, _⟩ := hs.owned i hi
  rw [hinvitee] at hv
  exact hmobile.symm.trans (hholds.2 v hv).1

/-- **What an answer says holds of the tables.** -/
theorem holds_read (hs : Sound k hours s) (hq : Standing k hours q stale s) (hsteady : Steady stale) (chance : Chance)
    (hallowed : (windows k hours).allowed q c) {key : Key} {v : Read}
    (hopens : opens k c (inviteExec k chance c s).1 key = some v) : holds k hours key v s := by
  cases c with
  | now =>
      have hkey : (if key = .time s.clock then some Read.time else none) = some v := hopens
      split at hkey
      · rename_i h
        subst h
        cases hkey
        exact le_refl s.clock
      · cases hkey
  | findUser mobile =>
      have hread : opens k (.findUser mobile) (s.userOf mobile) key = some v := hopens
      cases hu : s.userOf mobile with
      | none =>
          rw [hu] at hread
          have hkey : (if key = .rows mobile then some (Read.rows []) else none) = some v := hread
          split at hkey
          · rename_i h
            subst h
            cases hkey
            intro i hi hmobile
            obtain ⟨x, hx, hsame, _⟩ := hs.owned i hi
            have hnone := List.find?_eq_none.mp hu x (Table.mem_of_get hx)
            exact absurd (decide_eq_true (hsame.trans hmobile)) hnone
          · cases hkey
      | some u =>
          rw [hu] at hread
          have hmem : u ∈ s.users.rows := List.mem_of_find?_eq_some hu
          have hmobile : u.mobile = mobile := by simpa using List.find?_some hu
          have hget : s.users.get u.id = some u := Table.mem_rows.mp hmem
          have hkey : (if key = .account mobile then some (Read.account u.id (decide (k.role ∈ u.activeRoles)))
            else if key = .rows mobile ∧ k.role ∉ u.activeRoles then some (.rows []) else none) = some v := hread
          split at hkey
          · rename_i h
            subst h
            cases hkey
            refine ⟨hs.indexed.users u hmem, fun x hx => ?_⟩
            obtain rfl : u = x := Option.some.inj (hget.symm.trans hx)
            exact ⟨hmobile, fun hmember => of_decide_eq_true hmember⟩
          · split at hkey
            · rename_i h
              obtain ⟨h, hrole⟩ := h
              subst h
              cases hkey
              intro i hi hsame
              obtain ⟨x, hx, hxm, hxr⟩ := hs.owned i hi
              obtain rfl : x = u :=
                hs.indexed.mobiles x (Table.mem_of_get hx) u hmem (hxm.trans (hsame.trans hmobile.symm))
              exact absurd hxr hrole
            · cases hkey
  | findInvites u =>
      have hread : opens k (.findInvites u) (s.invitesOf u.id) key = some v := hopens
      have hmem : ∀ i ∈ s.invitesOf u.id, i ∈ s.invites.rows ∧ i.invitee = u.id := fun i hi =>
        ⟨List.mem_of_mem_filter hi, of_decide_eq_true (List.mem_filter.mp hi).2⟩
      cases key with
      | time t => cases hread
      | account mobile => cases hread
      | row id =>
          obtain ⟨i, hfind, rfl⟩ := Option.map_eq_some_iff.mp hread
          have hid : i.id = id := by simpa using List.find?_some hfind
          obtain ⟨hi, hinvitee⟩ := hmem i (List.mem_of_find?_eq_some hfind)
          refine ⟨hid ▸ hs.indexed.invites i hi, fun j hj => ?_⟩
          have hget := Table.mem_rows.mp hi
          rw [hid, hj] at hget
          obtain rfl := Option.some.inj hget
          exact ⟨mobile_of_found hs hq hsteady hallowed hi hinvitee, fun _ => rfl⟩
      | rows mobile =>
          have hkey : (if mobile = u.mobile ∧ s.invitesOf u.id ≠ [] then some (Read.rows (s.invitesOf u.id)) else none) =
            some v := hread
          split at hkey
          · rename_i h
            obtain ⟨rfl, hne⟩ := h
            cases hkey
            obtain ⟨i₁, hi₁⟩ := List.exists_mem_of_ne_nil _ hne
            obtain ⟨hrow₁, hinvitee₁⟩ := hmem i₁ hi₁
            have hmobile₁ := mobile_of_found hs hq hsteady hallowed hrow₁ hinvitee₁
            intro i hi hmobile
            have hsame := hs.invitee hi hrow₁ (hmobile.trans hmobile₁.symm)
            refine ⟨i, List.mem_filter.mpr ⟨hi, decide_eq_true (hsame.trans hinvitee₁)⟩, .refl i, fun h => h⟩
          · cases hkey
      | lone mobile =>
          have hkey : (if mobile = u.mobile ∧ s.invitesOf u.id ≠ [] then some (Read.rows (s.invitesOf u.id)) else none) =
            some v := hread
          split at hkey
          · cases hkey
            intro i hi j hj
            obtain ⟨hi, hi'⟩ := hmem i hi
            obtain ⟨hj, hj'⟩ := hmem j hj
            exact hs.alone i hi j hj (hi'.trans hj'.symm)
          · cases hkey
  | findInvite inviter u =>
      have hread : opens k (.findInvite inviter u) (s.inviteOf inviter u.id) key = some v := hopens
      cases hfind : s.inviteOf inviter u.id with
      | none =>
          rw [hfind] at hread
          cases hread
      | some i =>
          rw [hfind] at hread
          have hkey : (if key = .row i.id then some (Read.row i.inviter u.mobile) else none) = some v := hread
          split at hkey
          · rename_i h
            subst h
            cases hkey
            have hi : i ∈ s.invites.rows := List.mem_of_find?_eq_some hfind
            have hfound := List.find?_some hfind
            simp only [Bool.and_eq_true, decide_eq_true_eq] at hfound
            refine ⟨hs.indexed.invites i hi, fun j hj => ?_⟩
            obtain rfl : i = j := Option.some.inj ((Table.mem_rows.mp hi).symm.trans hj)
            exact ⟨mobile_of_found hs hq hsteady hallowed hi hfound.2, fun _ => rfl⟩
          · cases hkey
  | _ => cases hopens

/-- The statements that open windows write nothing. -/
theorem exec_of_opens (chance : Chance) {key : Key} {v : Read}
    (hopens : opens k c (inviteExec k chance c s).1 key = some v) : (inviteExec k chance c s).2 = s := by
  cases c with
  | now => rfl
  | findUser mobile => rfl
  | findInvites u => rfl
  | findInvite inviter u => rfl
  | _ => cases hopens

end Statement

/-! ### Whole runs -/

section Runs

variable {s₀ : Store} {tr : List (Event InviteResp)} {b : Conf InviteResp ServiceError Store}

theorem steady_stale (tr : List (Event InviteResp)) (pid : ℕ) : Steady (stale (windows k hours) tr pid) := by
  intro key hkey
  refine stale_of_undisturbed (fun c => ?_) tr pid
  cases key with
  | rows mobile => exact absurd rfl (hkey mobile)
  | _ => cases c <;> rfl

/-- A statement that does not disturb the rows of a number brings nobody in with it. -/
theorem calm_of_undisturbed {c : InviteCmd} (hc : ∀ w, c ≠ .commit w) {mobile : Mobile}
    (h : disturbs c (.rows mobile) = false) : calmIn c mobile := by
  cases c with
  | commit w => exact absurd rfl (hc w)
  | setUsed i usedAt => exact of_decide_eq_false h
  | markInvitesUsed m => exact of_decide_eq_false h
  | _ => exact trivial

theorem machine_exec {chance : Chance} {c : InviteCmd} {r : InviteResp c}
    (h : (machine k hours).exec chance c s = some (r, s')) :
    (inviteExec k chance c s).1 = r ∧ (inviteExec k chance c s).2 = s' := by
  have heq : inviteExec k chance c s = (r, s') := Option.some.inj h
  rw [heq]
  exact ⟨rfl, rfl⟩

theorem machine_begin {call : Call} {p : Invites Unit} (h : (machine k hours).begin call s = some (p, s')) :
    call.prog k hours = some p ∧ s' = s := by
  obtain ⟨q, hprog, heq⟩ := Option.map_eq_some_iff.mp h
  obtain ⟨rfl, rfl⟩ := Prod.mk.inj heq
  exact ⟨hprog, rfl⟩

/-- What a call commits rests on the tables, unless what it has read was disturbed. -/
theorem rests_of_stands {pid : ℕ} {w : Commit}
    (hfresh : ∀ key, disturbs (.commit w) key = true → outdated (windows k hours) tr pid key = false)
    (hstands : Stands (windows k hours) (holds k hours) tr s pid)
    (hfits : Fits k hours (windowsOf (windows k hours) tr pid) w) : Rests k hours w s := by
  refine rests_of_fits hfits hstands (steady_stale tr pid) fun hwrites hread => ?_
  obtain ⟨v, hv⟩ := hread
  refine fresh_of_held hv (hfresh (.rows w.mobile) ?_)
  simp [disturbs, hwrites]

/-- **One statement of a call** keeps the tables sound, whoever is in, and everything read that it does not disturb. -/
theorem sound_exec (hs : Sound k hours s) {pid : ℕ} {c : InviteCmd} (chance : Chance)
    (hfresh : ∀ key, disturbs c key = true → outdated (windows k hours) tr pid key = false)
    (hstands : Stands (windows k hours) (holds k hours) tr s pid)
    (hallowed : (windows k hours).allowed (windowsOf (windows k hours) tr pid) c) :
    Sound k hours (inviteExec k chance c s).2 ∧ Remains s (inviteExec k chance c s).2 ∧
      ∀ key v, disturbs c key = false → holds k hours key v s → holds k hours key v (inviteExec k chance c s).2 := by
  by_cases hc : ∀ w, c ≠ .commit w
  · have hages := exec_ages (k := k) hc chance s
    refine ⟨sound_ages hages hs, remains_ages hages, fun key v hcalm hv => holds_ages hages (fun mobile hkey => ?_) hv⟩
    subst hkey
    exact calm_of_undisturbed hc hcalm
  · obtain ⟨w, rfl⟩ := not_forall_not.mp hc
    have hrests : Rests k hours w s := rests_of_stands hfresh hstands hallowed
    exact ⟨sound_commit hs hrests, remains_commit hs hrests, fun key v hcalm hv => holds_commit hs hrests hcalm hv⟩

/-- **The tables stay sound**, and what every call has read and nobody disturbed stands. -/
theorem sound_run (h0 : Sound k hours s₀) (h : (machine k hours).Run (Fresh (windows k hours)) (.start s₀) tr b) :
    Sound k hours b.store ∧ (∀ pid, Stands (windows k hours) (holds k hours) tr b.store pid) ∧
      Monitored (windows k hours) tr b.pool := by
  refine Run.monitored (Sound k hours) (holds k hours) h0 ?_ ?_ (fun _ _ hdisturbs => hdisturbs) ?_ ?_ h
  · exact fun call s p s' hbegin => accepts_call (machine_begin hbegin).1
  · intro tr b pid chance c r s' hx hfresh hs hstands hallowed
    obtain ⟨hr, hs'⟩ := machine_exec hx
    subst hr hs'
    have hsteady : Steady (stale (windows k hours) tr pid) := steady_stale tr pid
    obtain ⟨hafter, _, hkeep⟩ := sound_exec hs chance hfresh hstands hallowed
    refine ⟨answers_exec hs hstands hsteady chance c, hafter, fun key v hopens => ?_, hkeep⟩
    have hsame : (inviteExec k chance c b.store).2 = b.store := exec_of_opens chance hopens
    rw [hsame]
    exact holds_read hs hstands hsteady chance hallowed hopens
  · intro o s s' ho hs
    obtain rfl := Option.some.inj ho
    have hages : Ages (fun _ => True) s (o.apply s) := ages_outside hs.indexed o
    exact ⟨sound_ages hages hs, fun key v hv => holds_ages hages (fun _ _ => trivial) hv⟩
  · exact fun call s p s' hbegin => (machine_begin hbegin).2

/-- **Nobody goes back out.**  What every step of such a run keeps is kept to any later point. -/
theorem remains_later {x y : List (Event InviteResp) × Conf InviteResp ServiceError Store} (h0 : Sound k hours s₀)
    (hx : (machine k hours).Run (Fresh (windows k hours)) (.start s₀) x.1 x.2)
    (hxy : (machine k hours).Later (Fresh (windows k hours)) x y) : Remains x.2.store y.2.store := by
  refine Machine.Run.relates (fun b c => Remains b.store c.store) (fun b => .refl b.store) ?_ hx hxy
  intro tr b l e c b₀ hrun hs hfresh hbefore
  obtain ⟨hsound, hstands, hpool⟩ := sound_run h0 hrun
  refine hbefore.trans ?_
  cases l with
  | outside o =>
      obtain ⟨s, ho, rfl, rfl⟩ := Machine.step_outside hs
      obtain rfl := Option.some.inj ho
      have hages : Ages (fun _ => True) b.store (o.apply b.store) := ages_outside hsound.indexed o
      exact remains_ages hages
  | start call =>
      obtain ⟨p, s, hbegin, rfl, rfl⟩ := Machine.step_start hs
      rw [(machine_begin hbegin).2]
      exact .refl b.store
  | act pid chance =>
      obtain ⟨cmd, next, r, s, hcall, hexec, rfl, rfl⟩ := Machine.step_act hs
      obtain ⟨_, hs'⟩ := machine_exec hexec
      subst hs'
      exact (sound_exec hsound chance hfresh (hstands pid) (hpool.2 pid _ hcall).1).2.1

/-- No two invites of a number wait. -/
theorem Sound.waiting (h : Sound k hours s) {i j : Invite} (hi : i ∈ s.invites.rows) (hj : j ∈ s.invites.rows)
    (hmobile : i.mobile = j.mobile) (hwi : isInviteWaiting hours s.clock i = true)
    (hwj : isInviteWaiting hours s.clock j = true) : i = j :=
  h.alone i hi j hj (h.invitee hi hj hmobile) hwi hwj

/-- Whoever was in is in, with an account. -/
theorem Sound.came (h : Sound k hours s') (hremains : Remains s s') {i : Invite} (hi : i ∈ s.invites.rows)
    (hused : i.usedAt.isSome = true) : (∃ j ∈ s'.invites.rows, Aged i j ∧ j.usedAt.isSome = true) ∧
      ∃ u, s'.users.get i.invitee = some u ∧ u.mobile = i.mobile ∧ k.role ∈ u.activeRoles := by
  obtain ⟨j, hj, haged⟩ := hremains.came i hi hused
  obtain ⟨u, hu, hmobile, hrole⟩ := h.owned j hj
  rw [haged.invitee] at hu
  exact ⟨⟨j, hj, haged, haged.used hused⟩, u, hu, hmobile.trans haged.mobile, hrole⟩

end Runs

/-! ### Runs to replay -/

/-- The number whose rows a statement disturbs. -/
def disturbed : InviteCmd → Option Mobile
  | .commit w => if Writes w then some w.mobile else none
  | .setUsed i _ => some i.mobile
  | .markInvitesUsed mobile => some mobile
  | _ => none

theorem disturbs_iff (c : InviteCmd) (key : Key) :
    disturbs c key = true ↔ ∃ mobile, disturbed c = some mobile ∧ key = .rows mobile := by
  cases c <;> cases key <;> simp [disturbs, disturbed]
  exact ⟨fun h => ⟨h.2, h.1.symm⟩, fun h => ⟨h.2.symm, h.1⟩⟩

def isFresh (k : Kind) (hours : ℕ) (tr : List (Event InviteResp)) : Event InviteResp → Bool
  | .act pid c _ => (disturbed c).all fun mobile => !outdated (windows k hours) tr pid (.rows mobile)
  | _ => true

theorem isFresh_iff {tr : List (Event InviteResp)} {a : Conf InviteResp ServiceError Store} {e : Event InviteResp} :
    isFresh k hours tr e = true ↔ Fresh (windows k hours) tr a e := by
  cases e with
  | outside => exact iff_of_true rfl trivial
  | start pid => exact iff_of_true rfl trivial
  | act pid c r =>
      show (disturbed c).all (fun mobile => !outdated (windows k hours) tr pid (.rows mobile)) = true ↔
        ∀ key, disturbs c key = true → outdated (windows k hours) tr pid key = false
      simp only [disturbs_iff, Option.all_eq_true, Bool.not_eq_true']
      constructor
      · rintro h key ⟨mobile, hmobile, rfl⟩
        exact h mobile hmobile
      · exact fun h mobile hmobile => h (.rows mobile) ⟨mobile, hmobile, rfl⟩

instance (tr : List (Event InviteResp)) (a : Conf InviteResp ServiceError Store) (e : Event InviteResp) :
    Decidable (Fresh (windows k hours) tr a e) :=
  decidable_of_iff _ isFresh_iff

/-- Nobody is invited yet. -/
def newTables : Store where
  clock := 1000
  nextId := 100
  roles := [.driver, .factory, .company, .broker]
  parents := [1]
  users := Table.empty
  invites := Table.empty
  factories := []

theorem sound_newTables (k : Kind) (hours : ℕ) : Sound k hours newTables := by
  refine ⟨⟨?_, ?_, ?_, ?_⟩, ?_, ?_⟩ <;> exact fun x hx => absurd hx List.not_mem_nil

section Results

variable {s₀ : Store} {tr : List (Event InviteResp)} {b : Conf InviteResp ServiceError Store}

/-- **One inviter at a time.**  Over every interleaving of invites, registers, sign-ins, welcomes, removals and sweeps
in which a transaction goes in before anybody else has invited or brought in the number since it read the rows, no two
invites of an account wait. -/
theorem one_inviter (h0 : Sound k hours s₀)
    (h : (machine k hours).Run (Fresh (windows k hours)) (.start s₀) tr b) :
    ∀ i ∈ b.store.invites.rows, ∀ j ∈ b.store.invites.rows, i.mobile = j.mobile →
      isInviteWaiting hours b.store.clock i = true → isInviteWaiting hours b.store.clock j = true → i = j := by
  intro i hi j hj hmobile hwi hwj
  exact (sound_run h0 h).1.waiting hi hj hmobile hwi hwj

/-- Two companies invite a driver; the second looks at its rows after the first has invited. -/
def twoCompanies : List (machine .driver 24).Label :=
  [.start (.invite 1 ["09121234567".toList]), .act 0 ⟨"abcdefghijklmnop", true⟩,
    .start (.invite 2 ["09121234567".toList])] ++ List.replicate 4 (.act 0 ⟨"abcdefghijklmnop", true⟩) ++
    List.replicate 4 (.act 1 ⟨"abcdefghijklmnoq", true⟩)

theorem one_inviter_twoCompanies : ∃ x : List (Event InviteResp) × Conf InviteResp ServiceError Store,
    (machine .driver 24).Run (Fresh (windows .driver 24)) (.start newTables) x.1 x.2 ∧
    x.2.pool.map Prog.finished = [true, true] ∧ x.2.store.invites.rows.map Invite.inviter = [1] ∧
    ∀ i ∈ x.2.store.invites.rows, ∀ j ∈ x.2.store.invites.rows, i.mobile = j.mobile →
      isInviteWaiting 24 x.2.store.clock i = true → isInviteWaiting 24 x.2.store.clock j = true → i = j := by
  have hplay : ((machine .driver 24).play (Fresh (windows .driver 24)) [] (.start newTables) twoCompanies).any
      (fun x => decide (x.2.pool.map Prog.finished = [true, true] ∧ x.2.store.invites.rows.map Invite.inviter = [1])) =
        true := by decide +kernel
  simp only [Option.any_eq_true, decide_eq_true_eq] at hplay
  obtain ⟨x, hp, hfinished, hinviter⟩ := hplay
  have hrun : (machine .driver 24).Run (Fresh (windows .driver 24)) (.start newTables) x.1 x.2 := Machine.play_run .nil hp
  exact ⟨x, hrun, hfinished, hinviter, one_inviter (sound_newTables .driver 24) hrun⟩

/-- A driver whose only invite is over. -/
def overTables : Store :=
  { newTables with
    users := Table.empty.put ⟨90, "09121234567".toList, 1000, [⟨.driver, true⟩], .none, false⟩
    invites := Table.empty.put ⟨91, 3, 90, "09121234567".toList, "abcdefghijklmnop", 1000, none, some 2000, false, false⟩ }

/-- Two companies look at its rows before either invites. -/
def bothLook : List (machine .driver 24).Label :=
  [.start (.invite 1 ["09121234567".toList]), .start (.invite 2 ["09121234567".toList])] ++
    List.replicate 6 (.act 0 ⟨"abcdefghijklmnoq", true⟩) ++ List.replicate 7 (.act 1 ⟨"abcdefghijklmnor", true⟩) ++
    [.act 0 ⟨"", true⟩]

-- the condition on the runs is needed: both rows are inserted, and both wait
example : ((machine .driver 24).play (fun _ _ _ => True) [] (.start overTables) bothLook).map (fun x =>
    (x.2.store.invites.rows.filter (isInviteWaiting 24 x.2.store.clock)).map Invite.inviter) = some [2, 1] := by
  decide +kernel

/-- **Whoever came in stays.**  At every later point of such a run the invite it came in by is there, used, and so is
its account, with the role; and no linked account is gone. -/
theorem came_in_stays {x y : List (Event InviteResp) × Conf InviteResp ServiceError Store} (h0 : Sound k hours s₀)
    (hx : (machine k hours).Run (Fresh (windows k hours)) (.start s₀) x.1 x.2)
    (hxy : (machine k hours).Later (Fresh (windows k hours)) x y) :
    (∀ i ∈ x.2.store.invites.rows, i.usedAt.isSome = true →
      (∃ j ∈ y.2.store.invites.rows, Aged i j ∧ j.usedAt.isSome = true) ∧
        ∃ u, y.2.store.users.get i.invitee = some u ∧ u.mobile = i.mobile ∧ k.role ∈ u.activeRoles) ∧
      ∀ u ∈ x.2.store.users.rows, u.linked = true → ∃ v ∈ y.2.store.users.rows, Grown u v := by
  have hremains : Remains x.2.store y.2.store := remains_later h0 hx hxy
  have hsound : Sound k hours y.2.store := (sound_run h0 (Machine.Run.later hx hxy)).1
  exact ⟨fun i hi hused => hsound.came hremains hi hused, hremains.linked⟩

/-- A driver is invited and signs in. -/
def signedIn : List (machine .driver 24).Label :=
  [.start (.invite 1 ["09121234567".toList])] ++ List.replicate 5 (.act 0 ⟨"abcdefghijklmnop", true⟩) ++
    [.start (.signIn "09121234567".toList), .act 1 ⟨"", true⟩]

/-- Two days later a sweep passes. -/
def sweptLater : List (machine .driver 24).Label :=
  [.outside (.tick (48 * hourMs)), .start .sweep, .act 2 ⟨"", true⟩]

theorem came_in_stays_swept : ∃ x y : List (Event InviteResp) × Conf InviteResp ServiceError Store,
    (machine .driver 24).Later (Fresh (windows .driver 24)) x y ∧
    x.2.store.invites.rows.map (fun i => (i.id, i.usedAt)) = [(101, some 1000)] ∧ y.2.store.clock = 1000 + 48 * hourMs ∧
    ∀ i ∈ x.2.store.invites.rows, i.usedAt.isSome = true →
      ∃ j ∈ y.2.store.invites.rows, Aged i j ∧ j.usedAt.isSome = true := by
  have hplay : ((machine .driver 24).play (Fresh (windows .driver 24)) [] (.start newTables) signedIn).any (fun x =>
      decide (x.2.store.invites.rows.map (fun i => (i.id, i.usedAt)) = [(101, some 1000)]) &&
        ((machine .driver 24).play (Fresh (windows .driver 24)) x.1 x.2 sweptLater).any fun y =>
          decide (y.2.store.clock = 1000 + 48 * hourMs)) = true := by decide +kernel
  simp only [Option.any_eq_true, Bool.and_eq_true, decide_eq_true_eq] at hplay
  obtain ⟨x, hx, hused, y, hy, hclock⟩ := hplay
  have hrun : (machine .driver 24).Run (Fresh (windows .driver 24)) (.start newTables) x.1 x.2 := Machine.play_run .nil hx
  have hlater : (machine .driver 24).Later (Fresh (windows .driver 24)) x y := Machine.play_later hy
  refine ⟨x, y, hlater, hused, hclock, fun i hi hin => ?_⟩
  exact ((came_in_stays (sound_newTables .driver 24) hrun hlater).1 i hi hin).1

/-- **One call after another.**  In every sequential history, at any times, no two invites of a number wait, and
whoever came in stays: no reading is ever stale. -/
theorem one_after_another {x y : List (Event InviteResp) × Conf InviteResp ServiceError Store} (h0 : Sound k hours s₀)
    (hx : (machine k hours).Run Serial (.start s₀) x.1 x.2) (hxy : (machine k hours).Later Serial x y) :
    (∀ i ∈ y.2.store.invites.rows, ∀ j ∈ y.2.store.invites.rows, i.mobile = j.mobile →
      isInviteWaiting hours y.2.store.clock i = true → isInviteWaiting hours y.2.store.clock j = true → i = j) ∧
    (∀ i ∈ x.2.store.invites.rows, i.usedAt.isSome = true →
      (∃ j ∈ y.2.store.invites.rows, Aged i j ∧ j.usedAt.isSome = true) ∧
        ∃ u, y.2.store.users.get i.invitee = some u ∧ u.mobile = i.mobile ∧ k.role ∈ u.activeRoles) ∧
    ∀ u ∈ x.2.store.users.rows, u.linked = true → ∃ v ∈ y.2.store.users.rows, Grown u v := by
  have hfresh : (machine k hours).Run (Fresh (windows k hours)) (.start s₀) x.1 x.2 := Run.fresh_of_serial _ hx
  have hlater : (machine k hours).Later (Fresh (windows k hours)) x y := Later.fresh_of_serial _ hx hxy
  have hremains : Remains x.2.store y.2.store := remains_later h0 hfresh hlater
  have hsound : Sound k hours y.2.store := (sound_run h0 (Machine.Run.later hfresh hlater)).1
  refine ⟨fun i hi j hj hmobile hwi hwj => hsound.waiting hi hj hmobile hwi hwj, fun i hi hused => ?_, hremains.linked⟩
  exact hsound.came hremains hi hused

/-- The driver's account is linked to a messenger; two days later its invite is swept, and another company invites it. -/
def linkedLater : List (machine .driver 24).Label :=
  [.outside (.link 100), .outside (.tick (48 * hourMs)), .start .sweep, .act 1 ⟨"", true⟩, .act 1 ⟨"", true⟩,
    .start (.invite 2 ["09121234567".toList])] ++ List.replicate 7 (.act 2 ⟨"abcdefghijklmnoq", true⟩)

theorem one_after_another_linked : ∃ y : List (Event InviteResp) × Conf InviteResp ServiceError Store,
    (machine .driver 24).Run Serial (.start newTables) y.1 y.2 ∧ y.2.pool.map Prog.finished = [true, true, true] ∧
    ∀ i ∈ y.2.store.invites.rows, ∀ j ∈ y.2.store.invites.rows, i.mobile = j.mobile →
      isInviteWaiting 24 y.2.store.clock i = true → isInviteWaiting 24 y.2.store.clock j = true → i = j := by
  have hplay : ((machine .driver 24).play Serial [] (.start newTables) (signedIn.take 6)).any (fun x =>
      ((machine .driver 24).play Serial x.1 x.2 linkedLater).any fun y =>
        decide (y.2.pool.map Prog.finished = [true, true, true])) = true := by decide +kernel
  simp only [Option.any_eq_true, decide_eq_true_eq] at hplay
  obtain ⟨x, hx, y, hy, hfinished⟩ := hplay
  have hrun : (machine .driver 24).Run Serial (.start newTables) x.1 x.2 := Machine.play_run .nil hx
  have hlater : (machine .driver 24).Later Serial x y := Machine.play_later hy
  exact ⟨y, Machine.Run.later hrun hlater, hfinished, (one_after_another (sound_newTables .driver 24) hrun hlater).1⟩

end Results

end TransportBackend.InviteRuns
