import TransportBackend.InviteService

/-!
# What the statements on invites keep

Apart from the transaction that invites, every statement only ages the tables: an invite may come in, be revoked, or
go with its account when nobody came in, and accounts only gain roles and links.

* `Aged` — an invite some time later, unless it was renewed;
* `Ages` — what every such statement keeps; it composes (`Ages.trans`);
* `Indexed` — what the unique indexes and identifiers keep, over every statement;
* `Written`, `commit_cases` — what the inviting transaction does beside: it renews one invite, or inserts one.
-/

namespace TransportBackend.InviteAges

open TransportBackend.InviteService
open TransportBackend.InviteStore
open TransportBackend.KeyedTable

/-! ### Invites that age -/

/-- The same invite later: what it is for stays, what came in stays in, and while nobody came in it is not freed of
its revocation. -/
structure Aged (i i' : Invite) : Prop where
  id : i'.id = i.id
  inviter : i'.inviter = i.inviter
  invitee : i'.invitee = i.invitee
  mobile : i'.mobile = i.mobile
  createdAt : i'.createdAt = i.createdAt
  used : i.usedAt.isSome = true → i'.usedAt.isSome = true
  revoked : i'.usedAt.isSome = false → i'.revokedAt = none → i.revokedAt = none

theorem Aged.refl (i : Invite) : Aged i i := ⟨rfl, rfl, rfl, rfl, rfl, fun h => h, fun _ h => h⟩

theorem Aged.trans {i j l : Invite} (h : Aged i j) (h' : Aged j l) : Aged i l where
  id := h'.id.trans h.id
  inviter := h'.inviter.trans h.inviter
  invitee := h'.invitee.trans h.invitee
  mobile := h'.mobile.trans h.mobile
  createdAt := h'.createdAt.trans h.createdAt
  used := fun hused => h'.used (h.used hused)
  revoked := fun hunused hrevoked => by
    refine h.revoked ?_ (h'.revoked hunused hrevoked)
    cases hj : j.usedAt.isSome with
    | false => rfl
    | true =>
        rw [h'.used hj] at hunused
        cases hunused

theorem Aged.unique {i i' : Invite} (h : Aged i i') (k : Kind) : k.unique i' = k.unique i := by
  unfold Kind.unique
  rw [h.inviter, h.invitee]

/-- An invite waits only where it waited before. -/
theorem Aged.waiting {i i' : Invite} (h : Aged i i') {hours t t' : ℕ} (ht : t ≤ t')
    (hwaiting : isInviteWaiting hours t' i' = true) : isInviteWaiting hours t i = true := by
  simp only [isInviteWaiting, isInviteExpired, Bool.and_eq_true, Bool.not_eq_true', Bool.and_eq_false_iff,
    Option.isNone_iff_eq_none, decide_eq_false_iff_not, h.createdAt] at hwaiting ⊢
  obtain ⟨⟨hrevoked, hunused⟩, htime⟩ := hwaiting
  have hbefore : i.usedAt = none := by
    cases hi : i.usedAt with
    | none => rfl
    | some x =>
        have hused := h.used (by rw [hi]; rfl)
        rw [hunused] at hused
        cases hused
  refine ⟨⟨h.revoked (by rw [hunused]; rfl) hrevoked, hbefore⟩, .inr ?_⟩
  rcases htime with hsome | htime
  · rw [hunused] at hsome
    cases hsome
  · omega

/-! ### Accounts -/

/-- The same account later. -/
structure Grown (u u' : User) : Prop where
  id : u'.id = u.id
  mobile : u'.mobile = u.mobile
  roles : u.activeRoles ⊆ u'.activeRoles
  linked : u.linked = true → u'.linked = true

theorem Grown.refl (u : User) : Grown u u := ⟨rfl, rfl, fun _ h => h, fun h => h⟩

theorem Grown.trans {u v w : User} (h : Grown u v) (h' : Grown v w) : Grown u w :=
  ⟨h'.id.trans h.id, h'.mobile.trans h.mobile, fun _ hr => h'.roles (h.roles hr), fun hl => h'.linked (h.linked hl)⟩

/-! ### What the database keeps -/

/-- Identifiers were given, and the unique indexes hold. -/
structure Indexed (k : Kind) (s : Store) : Prop where
  users : ∀ u ∈ s.users.rows, u.id < s.nextId
  invites : ∀ i ∈ s.invites.rows, i.id < s.nextId
  mobiles : ∀ u ∈ s.users.rows, ∀ v ∈ s.users.rows, u.mobile = v.mobile → u = v
  unique : ∀ i ∈ s.invites.rows, ∀ j ∈ s.invites.rows, k.unique i = k.unique j → i = j

/-- What a statement does that renews and inserts no invite; of the numbers in `calm` none comes in. -/
structure Ages (calm : Mobile → Prop) (s s' : Store) : Prop where
  clock : s.clock ≤ s'.clock
  nextId : s.nextId ≤ s'.nextId
  back : ∀ i' ∈ s'.invites.rows, ∃ i ∈ s.invites.rows, Aged i i' ∧
    (calm i'.mobile → i'.usedAt.isSome = true → i.usedAt.isSome = true)
  came : ∀ i ∈ s.invites.rows, i.usedAt.isSome = true → ∃ i' ∈ s'.invites.rows, Aged i i'
  /-- Only an account of which no invite is left is deleted, and none that is linked. -/
  grown : ∀ u ∈ s.users.rows, (∃ u' ∈ s'.users.rows, Grown u u') ∨
    (u.linked = false ∧ ∀ i' ∈ s'.invites.rows, i'.invitee ≠ u.id)
  /-- An account that is there was there, or is new. -/
  users : ∀ u' ∈ s'.users.rows, (∃ u ∈ s.users.rows, Grown u u') ∨ (s.nextId ≤ u'.id ∧ u'.id < s'.nextId)
  mobiles : (∀ u ∈ s.users.rows, ∀ v ∈ s.users.rows, u.mobile = v.mobile → u = v) →
    ∀ u ∈ s'.users.rows, ∀ v ∈ s'.users.rows, u.mobile = v.mobile → u = v

variable {calm : Mobile → Prop}

theorem Ages.refl (s : Store) : Ages calm s s where
  clock := le_rfl
  nextId := le_rfl
  back := fun i hi => ⟨i, hi, .refl i, fun _ h => h⟩
  came := fun i hi _ => ⟨i, hi, .refl i⟩
  grown := fun u hu => .inl ⟨u, hu, .refl u⟩
  users := fun u hu => .inl ⟨u, hu, .refl u⟩
  mobiles := fun h => h

theorem Ages.trans {s t r : Store} (h : Ages calm s t) (h' : Ages calm t r) : Ages calm s r where
  clock := h.clock.trans h'.clock
  nextId := h.nextId.trans h'.nextId
  back := fun l hl => by
    obtain ⟨j, hj, hjl, hunused'⟩ := h'.back l hl
    obtain ⟨i, hi, hij, hunused⟩ := h.back j hj
    exact ⟨i, hi, hij.trans hjl, fun hcalm hused => hunused (hjl.mobile ▸ hcalm) (hunused' hcalm hused)⟩
  came := fun i hi hused => by
    obtain ⟨j, hj, hij⟩ := h.came i hi hused
    obtain ⟨l, hl, hjl⟩ := h'.came j hj (hij.used hused)
    exact ⟨l, hl, hij.trans hjl⟩
  grown := fun u hu => by
    rcases h.grown u hu with ⟨v, hv, huv⟩ | ⟨hlinked, hnone⟩
    · rcases h'.grown v hv with ⟨w, hw, hvw⟩ | ⟨hlinked, hnone⟩
      · exact .inl ⟨w, hw, huv.trans hvw⟩
      · refine .inr ⟨?_, fun i hi => huv.id ▸ hnone i hi⟩
        cases hl : u.linked with
        | false => rfl
        | true =>
            rw [huv.linked hl] at hlinked
            cases hlinked
    · refine .inr ⟨hlinked, fun l hl => ?_⟩
      obtain ⟨j, hj, hjl, _⟩ := h'.back l hl
      rw [hjl.invitee]
      exact hnone j hj
  users := fun w hw => by
    rcases h'.users w hw with ⟨v, hv, hvw⟩ | ⟨hle, hlt⟩
    · rcases h.users v hv with ⟨u, hu, huv⟩ | ⟨hle, hlt⟩
      · exact .inl ⟨u, hu, huv.trans hvw⟩
      · rw [← hvw.id] at hle hlt
        exact .inr ⟨hle, hlt.trans_le h'.nextId⟩
    · exact .inr ⟨h.nextId.trans hle, hlt⟩
  mobiles := fun hu => h'.mobiles (h.mobiles hu)

theorem Ages.mono {calm' : Mobile → Prop} {s s' : Store} (h : Ages calm s s') (hsub : ∀ m, calm' m → calm m) :
    Ages calm' s s' where
  clock := h.clock
  nextId := h.nextId
  back := fun i' hi' => by
    obtain ⟨i, hi, haged, hunused⟩ := h.back i' hi'
    exact ⟨i, hi, haged, fun hcalm => hunused (hsub _ hcalm)⟩
  came := h.came
  grown := h.grown
  users := h.users
  mobiles := h.mobiles

theorem Ages.indexed {s s' : Store} {k : Kind} (h : Ages calm s s') (hs : Indexed k s) : Indexed k s' where
  users := fun u' hu' => by
    rcases h.users u' hu' with ⟨u, hu, hgrown⟩ | ⟨_, hlt⟩
    · rw [hgrown.id]
      exact (hs.users u hu).trans_le h.nextId
    · exact hlt
  invites := fun i' hi' => by
    obtain ⟨i, hi, haged, _⟩ := h.back i' hi'
    rw [haged.id]
    exact (hs.invites i hi).trans_le h.nextId
  mobiles := h.mobiles hs.mobiles
  unique := fun i' hi' j' hj' hsame => by
    obtain ⟨i, hi, haged, _⟩ := h.back i' hi'
    obtain ⟨j, hj, haged', _⟩ := h.back j' hj'
    rw [haged.unique k, haged'.unique k] at hsame
    obtain rfl := hs.unique i hi j hj hsame
    exact Table.eq_of_key hi' hj' (haged.id.trans haged'.id.symm)

/-! ### Statements that age the tables -/

/-- A row of an invite is written again, older. -/
theorem ages_put {s s' : Store} {i i' : Invite} (hi : s.invites.get i.id = some i) (haged : Aged i i')
    (hcalm : calm i'.mobile → i'.usedAt.isSome = true → i.usedAt.isSome = true)
    (hinvites : s'.invites = s.invites.put i') (hclock : s'.clock = s.clock) (hnext : s'.nextId = s.nextId)
    (husers : s'.users = s.users) : Ages calm s s' where
  clock := le_of_eq hclock.symm
  nextId := le_of_eq hnext.symm
  back := fun j hj => by
    rw [hinvites] at hj
    rcases Table.mem_put.mp hj with rfl | ⟨_, hj⟩
    · exact ⟨i, Table.mem_of_get hi, haged, hcalm⟩
    · exact ⟨j, hj, .refl j, fun _ h => h⟩
  came := fun j hj _ => by
    rw [hinvites]
    by_cases hsame : j.id = i'.id
    · obtain rfl : j = i := by
        have hj' := Table.mem_rows.mp hj
        rw [hsame, haged.id, hi] at hj'
        exact (Option.some.inj hj').symm
      exact ⟨i', Table.mem_put.mpr (.inl rfl), haged⟩
    · exact ⟨j, Table.mem_put.mpr (.inr ⟨hsame, hj⟩), .refl j⟩
  grown := fun u hu => .inl ⟨u, husers ▸ hu, .refl u⟩
  users := fun u hu => .inl ⟨u, husers ▸ hu, .refl u⟩
  mobiles := fun h => husers ▸ h

/-- An account is written again, grown. -/
theorem ages_user {s : Store} {u u' : User} (hu : s.users.get u.id = some u) (hgrown : Grown u u') :
    Ages calm s { s with users := s.users.put u' } where
  clock := le_rfl
  nextId := le_rfl
  back := fun i hi => ⟨i, hi, .refl i, fun _ h => h⟩
  came := fun i hi _ => ⟨i, hi, .refl i⟩
  grown := fun v hv => by
    by_cases hsame : v.id = u'.id
    · obtain rfl : v = u := by
        have hv' := Table.mem_rows.mp hv
        rw [hsame, hgrown.id, hu] at hv'
        exact (Option.some.inj hv').symm
      exact .inl ⟨u', Table.mem_put.mpr (.inl rfl), hgrown⟩
    · exact .inl ⟨v, Table.mem_put.mpr (.inr ⟨hsame, hv⟩), .refl v⟩
  users := fun v hv => by
    rcases Table.mem_put.mp hv with rfl | ⟨_, hv⟩
    · exact .inl ⟨u, Table.mem_of_get hu, hgrown⟩
    · exact .inl ⟨v, hv, .refl v⟩
  mobiles := fun h => by
    have hold : ∀ v ∈ (s.users.put u').rows, ∃ v₀ ∈ s.users.rows, v₀.mobile = v.mobile ∧ v₀.id = v.id := by
      intro v hv
      rcases Table.mem_put.mp hv with rfl | ⟨_, hv⟩
      · exact ⟨u, Table.mem_of_get hu, hgrown.mobile.symm, hgrown.id.symm⟩
      · exact ⟨v, hv, rfl, rfl⟩
    intro v hv w hw hmobile
    obtain ⟨v₀, hv₀, hvm, hvi⟩ := hold v hv
    obtain ⟨w₀, hw₀, hwm, hwi⟩ := hold w hw
    have hsame := h v₀ hv₀ w₀ hw₀ (hvm.trans (hmobile.trans hwm.symm))
    refine Table.eq_of_key hv hw ?_
    rw [← hvi, ← hwi, hsame]

/-- An account is made for a number that has none. -/
theorem ages_newUser {k : Kind} {s : Store} (hs : Indexed k s) {u : User} (hid : u.id = s.nextId)
    (hfree : s.userOf u.mobile = none) :
    Ages calm s { s with nextId := s.nextId + 1, users := s.users.put u } where
  clock := le_rfl
  nextId := Nat.le_succ _
  back := fun i hi => ⟨i, hi, .refl i, fun _ h => h⟩
  came := fun i hi _ => ⟨i, hi, .refl i⟩
  grown := fun v hv => by
    have hne : v.id ≠ u.id := by
      rw [hid]
      exact Nat.ne_of_lt (hs.users v hv)
    exact .inl ⟨v, Table.mem_put.mpr (.inr ⟨hne, hv⟩), .refl v⟩
  users := fun v hv => by
    rcases Table.mem_put.mp hv with rfl | ⟨_, hv⟩
    · exact .inr ⟨le_of_eq hid.symm, hid ▸ Nat.lt_succ_self _⟩
    · exact .inl ⟨v, hv, .refl v⟩
  mobiles := fun h => by
    have hnew : ∀ v ∈ s.users.rows, v.mobile ≠ u.mobile := by
      intro v hv hsame
      have hnone := List.find?_eq_none.mp hfree v hv
      exact hnone (decide_eq_true hsame)
    intro v hv w hw hmobile
    rcases Table.mem_put.mp hv with hvu | ⟨_, hv'⟩ <;> rcases Table.mem_put.mp hw with hwu | ⟨_, hw'⟩
    · rw [hvu, hwu]
    · exact absurd (hvu ▸ hmobile.symm) (hnew w hw')
    · exact absurd (hwu ▸ hmobile) (hnew v hv')
    · exact h v hv' w hw' hmobile

/-- Only the time, the identifiers and the list of factories change. -/
theorem ages_rest {s s' : Store} (hclock : s.clock ≤ s'.clock) (hnext : s.nextId ≤ s'.nextId) (husers : s'.users = s.users)
    (hinvites : s'.invites = s.invites) : Ages calm s s' where
  clock := hclock
  nextId := hnext
  back := fun i hi => ⟨i, hinvites ▸ hi, .refl i, fun _ h => h⟩
  came := fun i hi _ => ⟨i, hinvites ▸ hi, .refl i⟩
  grown := fun u hu => .inl ⟨u, husers ▸ hu, .refl u⟩
  users := fun u hu => .inl ⟨u, husers ▸ hu, .refl u⟩
  mobiles := fun h => husers ▸ h

/-! ### The statements -/

/-- The link of an invite is opened. -/
theorem ages_setUsed (k : Kind) (s : Store) (i : Invite) (usedAt : ℕ) : Ages (· ≠ i.mobile) s (s.setUsed k i usedAt) := by
  unfold Store.setUsed
  split
  · rename_i row hget
    split
    · rename_i hmobile
      have hrow : s.invites.get row.id = some row := by rwa [Table.key_of_get hget]
      have haged : Aged row { row with
          usedAt := some usedAt, usedByLink := row.usedByLink || decide (k = .driver) } :=
        ⟨rfl, rfl, rfl, rfl, rfl, fun _ => rfl, fun hunused => by cases hunused⟩
      exact ages_put hrow haged (fun hne => absurd hmobile hne) rfl rfl rfl rfl
    · exact .refl s
  · exact .refl s

theorem aged_markUsed (s : Store) (mobile : Mobile) (i : Invite) : Aged i (s.markUsed mobile i) := by
  unfold Store.markUsed
  split
  · exact ⟨rfl, rfl, rfl, rfl, rfl, fun _ => rfl, fun hunused => by cases hunused⟩
  · exact .refl i

/-- The number comes in. -/
theorem ages_markInvitesUsed (s : Store) (mobile : Mobile) : Ages (· ≠ mobile) s (s.markInvitesUsed mobile) where
  clock := le_rfl
  nextId := le_rfl
  back := fun i' hi' => by
    obtain ⟨i, hi, rfl⟩ := List.mem_map.mp hi'
    refine ⟨i, hi, aged_markUsed s mobile i, fun hne hused => ?_⟩
    rw [(aged_markUsed s mobile i).mobile] at hne
    unfold Store.markUsed at hused
    rwa [if_neg fun h => hne h.1] at hused
  came := fun i hi _ => ⟨s.markUsed mobile i, List.mem_map_of_mem hi, aged_markUsed s mobile i⟩
  grown := fun u hu => .inl ⟨u, hu, .refl u⟩
  users := fun u hu => .inl ⟨u, hu, .refl u⟩
  mobiles := fun h => h

/-- An invite is revoked. -/
theorem ages_revoked {s s' : Store} {i : Invite} {t : ℕ} (hi : s.invites.get i.id = some i)
    (hinvites : s'.invites = s.invites.put { i with revokedAt := some t }) (hclock : s'.clock = s.clock)
    (hnext : s'.nextId = s.nextId) (husers : s'.users = s.users) : Ages calm s s' := by
  have haged : Aged i { i with revokedAt := some t } :=
    ⟨rfl, rfl, rfl, rfl, rfl, fun h => h, fun _ hrevoked => by cases hrevoked⟩
  exact ages_put hi haged (fun _ h => h) hinvites hclock hnext husers

theorem ages_revoke (s : Store) (inviter invitee now : ℕ) : Ages calm s (s.revoke inviter invitee now).2 := by
  unfold Store.revoke
  cases hfind : s.inviteOf inviter invitee with
  | none => exact .refl s
  | some i =>
      by_cases hrevoked : i.revokedAt = none
      · simp only [hrevoked, if_true]
        have hi : s.invites.get i.id = some i := Table.mem_rows.mp (List.mem_of_find?_eq_some hfind)
        exact ages_revoked hi rfl rfl rfl rfl
      · simp only [hrevoked, if_false]
        exact .refl s

/-- An account nobody came in with goes, with its invites. -/
theorem ages_deleteUser {s : Store} {u : User} {made : Invite} (hu : s.users.get u.id = some u)
    (hunvisited : s.unvisited u made = true) : Ages calm s (s.deleteUser u.id) where
  clock := le_rfl
  nextId := le_rfl
  back := fun i hi => ⟨i, List.mem_of_mem_filter hi, .refl i, fun _ h => h⟩
  came := fun i hi hused => by
    refine ⟨i, List.mem_filter.mpr ⟨hi, decide_eq_true fun hinvitee => ?_⟩, .refl i⟩
    simp only [Store.unvisited, Bool.and_eq_true, List.all_eq_true] at hunvisited
    have hmem : i ∈ s.invitesOf u.id := List.mem_filter.mpr ⟨hi, decide_eq_true hinvitee⟩
    have hunused := (hunvisited.1.2 i hmem).1
    cases hi : i.usedAt with
    | none =>
        rw [hi] at hused
        cases hused
    | some t =>
        rw [hi] at hunused
        cases hunused
  grown := fun v hv => by
    by_cases hsame : v.id = u.id
    · obtain rfl : v = u := Table.eq_of_key hv (Table.mem_of_get hu) hsame
      simp only [Store.unvisited, Bool.and_eq_true, Bool.not_eq_true'] at hunvisited
      exact .inr ⟨hunvisited.2, fun i hi => of_decide_eq_true (List.mem_filter.mp hi).2⟩
    · exact .inl ⟨v, Table.mem_erase.mpr ⟨hsame, hv⟩, .refl v⟩
  users := fun v hv => .inl ⟨v, (Table.mem_erase.mp hv).2, .refl v⟩
  mobiles := fun h v hv w hw => h v (Table.mem_erase.mp hv).2 w (Table.mem_erase.mp hw).2

theorem ages_deleteUnvisited (s : Store) (made : Invite) : Ages calm s (s.deleteUnvisited made) := by
  unfold Store.deleteUnvisited
  cases hu : s.users.get made.invitee with
  | none => exact .refl s
  | some u =>
      show Ages calm s (if s.unvisited u made then s.deleteUser u.id else s)
      split
      · rename_i hunvisited
        exact ages_deleteUser (by rwa [Table.key_of_get hu]) hunvisited
      · exact .refl s

theorem ages_expire (k : Kind) (s : Store) (id : ℕ) : Ages calm s (s.expire k id).2 := by
  unfold Store.expire
  cases hget : s.invites.get id with
  | none => exact .refl s
  | some i =>
      have hi : s.invites.get i.id = some i := by rwa [Table.key_of_get hget]
      by_cases hopen : i.usedAt = none ∧ i.revokedAt = none
      · simp only [hopen, and_self, if_true]
        have hrevoked : Ages calm s (s.revokeStale k i) := ages_revoked hi rfl rfl rfl rfl
        exact hrevoked.trans (ages_deleteUnvisited _ i)
      · simp only [hopen, if_false]
        exact .refl s

theorem grown_roles (u : User) (role : UserRole) (status : VerificationStatus) :
    Grown u { u with userRoles := u.userRoles ++ [role], verificationStatus := status } := by
  refine ⟨rfl, rfl, fun r hr => ?_, fun h => h⟩
  unfold User.activeRoles at hr ⊢
  rw [List.filter_append, List.map_append]
  exact List.mem_append.mpr (.inl hr)

/-- What happens outside of the services. -/
theorem ages_outside {k : Kind} {s : Store} (hs : Indexed k s) (o : Outside) : Ages calm s (o.apply s) := by
  cases o with
  | tick ms => exact ages_rest (Nat.le_add_right _ _) le_rfl rfl rfl
  | signUp mobile roles =>
      simp only [Outside.apply]
      split
      · exact .refl s
      · rename_i hfree
        exact ages_newUser hs rfl (Option.not_isSome_iff_eq_none.mp hfree)
  | giveRole userId role =>
      simp only [Outside.apply]
      split
      · rename_i u hu
        exact ages_user (by rwa [Table.key_of_get hu]) (grown_roles u _ _)
      · exact .refl s
  | link userId =>
      simp only [Outside.apply]
      split
      · rename_i u hu
        have hgrown : Grown u { u with linked := true } := ⟨rfl, rfl, fun _ h => h, fun _ => rfl⟩
        exact ages_user (by rwa [Table.key_of_get hu]) hgrown
      · exact .refl s

/-! ### The transaction that invites -/

section Commit

variable {k : Kind} {s s' s₁ : Store} {w : Commit} {d id : ℕ}

/-- What a transaction counts on of its account. -/
def Known (k : Kind) (w : Commit) (s : Store) : Prop :=
  match w.account with
  | .keep id _ => ∀ u, s.users.get id = some u →
      u.mobile = w.mobile ∧ ((∃ token, w.invite = .insert token) → k.role ∈ u.activeRoles)
  | .giveRole id => ∀ u, s.users.get id = some u → u.mobile = w.mobile
  | .create => True

theorem grown_given (k : Kind) (u : User) : Grown u (Store.given k u) := grown_roles u _ _

theorem role_given (k : Kind) (u : User) : k.role ∈ (Store.given k u).activeRoles := by
  unfold Store.given User.activeRoles
  rw [List.filter_append, List.map_append]
  exact List.mem_append.mpr (.inr List.mem_cons_self)

/-- The account is written, and is what the transaction counts on. -/
theorem writeAccount_ages (hs : Indexed k s) (h : s.writeAccount k w = some (d, s₁)) :
    Ages calm s s₁ ∧ s₁.invites = s.invites ∧ s₁.clock = s.clock ∧
      (Known k w s → ∀ u, s₁.users.get d = some u →
        u.mobile = w.mobile ∧ ((∃ token, w.invite = .insert token) → k.role ∈ u.activeRoles)) := by
  cases haccount : w.account with
  | keep id approve =>
      simp only [Store.writeAccount, haccount] at h
      simp only [Known, haccount]
      split at h
      · rename_i u hu
        have huid : u.id = id := Table.key_of_get hu
        split at h
        · cases h
          have hgrown : Grown u { u with verificationStatus := .approved } := ⟨rfl, rfl, fun _ hr => hr, fun hl => hl⟩
          refine ⟨ages_user (by rwa [huid]) hgrown, rfl, rfl, fun hknown v hv => ?_⟩
          have hself : (s.users.put { u with verificationStatus := .approved }).get u.id =
              some { u with verificationStatus := .approved } := Table.get_put_self _ _
          rw [← huid, hself] at hv
          cases hv
          exact hknown u hu
        · cases h
          exact ⟨.refl s, rfl, rfl, fun hknown => hknown⟩
      · cases h
        exact ⟨.refl s, rfl, rfl, fun hknown => hknown⟩
  | giveRole id =>
      simp only [Store.writeAccount, haccount] at h
      simp only [Known, haccount]
      obtain ⟨u, hu, heq⟩ := Option.map_eq_some_iff.mp h
      cases heq
      have huid : u.id = d := Table.key_of_get hu
      refine ⟨ages_user (by rwa [huid]) (grown_given k u), rfl, rfl, fun hknown v hv => ?_⟩
      have hself : (s.users.put (Store.given k u)).get u.id = some (Store.given k u) := Table.get_put_self _ _
      rw [← huid, hself] at hv
      cases hv
      exact ⟨hknown u hu, fun _ => role_given k u⟩
  | create =>
      simp only [Store.writeAccount, haccount] at h
      split at h
      · cases h
      · rename_i hfree
        cases h
        refine ⟨ages_newUser hs rfl (Option.not_isSome_iff_eq_none.mp hfree), rfl, rfl, fun _ v hv => ?_⟩
        have hself := Table.get_put_self s.users (Store.given k ⟨s.nextId, w.mobile, w.startedAt, [], .approved, false⟩)
        have hv' := hself.symm.trans hv
        cases hv'
        exact ⟨rfl, fun _ => role_given k _⟩

theorem writeFactory_ages (s : Store) (w : Commit) (d : ℕ) : Ages calm s (s.writeFactory k w d) := by
  unfold Store.writeFactory
  split
  · exact ages_rest le_rfl le_rfl rfl rfl
  · exact .refl s

theorem writeFactory_same (s : Store) (w : Commit) (d : ℕ) :
    (s.writeFactory k w d).invites = s.invites ∧ (s.writeFactory k w d).clock = s.clock ∧
      (s.writeFactory k w d).users = s.users := by
  unfold Store.writeFactory
  split
  · exact ⟨rfl, rfl, rfl⟩
  · exact ⟨rfl, rfl, rfl⟩

/-- What the transaction writes of the invite `id` for the account `d`. -/
inductive Written (k : Kind) (w : Commit) (d id : ℕ) (s : Store) : Store → Prop where
  /-- The invite stays as it is, or is gone. -/
  | kept : w.invite = .keep id ∨ (∃ token t, w.invite = .renew id token t) → Written k w d id s s
  | renewed (i : Invite) (token : String) (t : ℕ) : w.invite = .renew id token t → s.invites.get id = some i →
      Written k w d id s { s with invites := s.invites.put (Store.renewedRow k w i token t) }
  | inserted (token : String) : w.invite = .insert token → id = s.nextId → (s.users.get d).isSome = true →
      (∀ i ∈ s.invites.rows, k.unique i ≠ k.unique (Store.insertedRow w s.nextId d token)) →
      Written k w d id s { s with nextId := s.nextId + 1, invites := s.invites.put (Store.insertedRow w s.nextId d token) }

theorem written_of (h : s.writeInvite k w d = some (id, s')) : Written k w d id s s' := by
  unfold Store.writeInvite at h
  split at h
  · rename_i x hkeep
    cases h
    exact .kept (.inl hkeep)
  · rename_i x token t hrenew
    split at h
    · cases h
      exact .kept (.inr ⟨token, t, hrenew⟩)
    · rename_i i hget
      split at h
      · cases h
        exact .renewed i token t hrenew hget
      · cases h
  · rename_i token hinsert
    dsimp only at h
    split at h
    · rename_i hfree
      simp only [Bool.and_eq_true, List.all_eq_true, decide_eq_true_eq] at hfree
      cases h
      exact .inserted token hinsert rfl hfree.1.1 hfree.2
    · cases h

/-- A driver registered directly comes in. -/
theorem writeDirect_ages (s : Store) (w : Commit) (id : ℕ) :
    Ages (fun m => w.direct = none ∨ ∀ i, s.invites.get id = some i → i.mobile ≠ m) s (s.writeDirect w id) := by
  unfold Store.writeDirect
  split
  · rename_i now i hdirect hget
    have hi : s.invites.get i.id = some i := by rwa [Table.key_of_get hget]
    have haged : Aged i { i with usedAt := some now, direct := true, revokedAt := none } :=
      ⟨rfl, rfl, rfl, rfl, rfl, fun _ => rfl, fun hunused => by cases hunused⟩
    refine ages_put hi haged (fun hcalm => ?_) rfl rfl rfl rfl
    rcases hcalm with hnone | hother
    · rw [hdirect] at hnone
      cases hnone
    · exact absurd rfl (hother i hget)
  · exact .refl s

/-- **What a transaction that invites does**: nothing, or it writes its account, then its invite, and then ages. -/
theorem commit_cases (hs : Indexed k s) (w : Commit) : (s.commit k w).2 = s ∨ ∃ d id s₁ s₂,
    (∀ calm, Ages calm s s₁) ∧ s₁.invites = s.invites ∧ s₁.clock = s.clock ∧
    (Known k w s → ∀ u, s₁.users.get d = some u →
      u.mobile = w.mobile ∧ ((∃ token, w.invite = .insert token) → k.role ∈ u.activeRoles)) ∧
    Written k w d id s₁ s₂ ∧
    Ages (fun m => w.direct = none ∨ ∀ i, s₂.invites.get id = some i → i.mobile ≠ m) s₂ (s.commit k w).2 := by
  unfold Store.commit
  cases haccount : s.writeAccount k w with
  | none => exact .inl rfl
  | some out =>
      obtain ⟨d, s₁⟩ := out
      obtain ⟨hinvites, hclock, husers⟩ := writeFactory_same (k := k) s₁ w d
      simp only
      cases hwrite : (s₁.writeFactory k w d).writeInvite k w d with
      | none => exact .inl rfl
      | some out =>
          obtain ⟨id, s₂⟩ := out
          have hage : Ages (fun _ => True) s s₁ ∧ _ := writeAccount_ages hs haccount
          obtain ⟨_, hsame, htime, hknown⟩ := hage
          refine .inr ⟨d, id, s₁.writeFactory k w d, s₂, fun calm => ?_, hinvites.trans hsame, hclock.trans htime, ?_,
            written_of hwrite, writeDirect_ages s₂ w id⟩
          · exact (writeAccount_ages hs haccount).1.trans (writeFactory_ages s₁ w d)
          · intro hk u hu
            rw [husers] at hu
            exact hknown hk u hu

end Commit

/-! ### Every statement -/

/-- The rows of a renewed or a new invite keep the indexes. -/
theorem Written.indexed {k : Kind} {w : Commit} {d id : ℕ} {s s' : Store} (h : Written k w d id s s')
    (hs : Indexed k s) : Indexed k s' := by
  cases h with
  | kept => exact hs
  | renewed i token t hrenew hget =>
      have hid : (Store.renewedRow k w i token t).id = i.id := rfl
      have hi : i ∈ s.invites.rows := Table.mem_of_get hget
      have hunique : k.unique (Store.renewedRow k w i token t) = k.unique i := by
        cases k <;> rfl
      refine ⟨hs.users, fun j hj => ?_, hs.mobiles, fun j hj l hl hsame => ?_⟩
      · rcases Table.mem_put.mp hj with rfl | ⟨_, hj⟩
        · exact hs.invites i hi
        · exact hs.invites j hj
      · rcases Table.mem_put.mp hj with hji | ⟨hne, hj'⟩ <;> rcases Table.mem_put.mp hl with hli | ⟨hne', hl'⟩
        · rw [hji, hli]
        · rw [hji, hunique] at hsame
          exact absurd (congrArg Invite.id (hs.unique i hi l hl' hsame)).symm hne'
        · rw [hli, hunique] at hsame
          exact absurd (congrArg Invite.id (hs.unique j hj' i hi hsame)) hne
        · exact hs.unique j hj' l hl' hsame
  | inserted token hinsert hid hd hfree =>
      refine ⟨fun u hu => (hs.users u hu).trans (Nat.lt_succ_self _), fun j hj => ?_, hs.mobiles, fun j hj l hl hsame => ?_⟩
      · rcases Table.mem_put.mp hj with rfl | ⟨_, hj⟩
        · exact Nat.lt_succ_self _
        · exact (hs.invites j hj).trans (Nat.lt_succ_self _)
      · rcases Table.mem_put.mp hj with hji | ⟨_, hj'⟩ <;> rcases Table.mem_put.mp hl with hli | ⟨_, hl'⟩
        · rw [hji, hli]
        · rw [hji] at hsame
          exact absurd hsame.symm (hfree l hl')
        · rw [hli] at hsame
          exact absurd hsame (hfree j hj')
        · exact hs.unique j hj' l hl' hsame

/-- The statements that renew and insert no invite, and the numbers of which they bring none in. -/
def calmIn : InviteCmd → Mobile → Prop
  | .setUsed i _, m => m ≠ i.mobile
  | .markInvitesUsed mobile, m => m ≠ mobile
  | _, _ => True

theorem exec_ages {k : Kind} {c : InviteCmd} (hc : ∀ w, c ≠ .commit w) (chance : Chance) (s : Store) :
    Ages (calmIn c) s (inviteExec k chance c s).2 := by
  cases c with
  | commit w => exact absurd rfl (hc w)
  | setUsed i usedAt => exact ages_setUsed k s i usedAt
  | markInvitesUsed mobile => exact ages_markInvitesUsed s mobile
  | leave inviter invitee => exact ages_rest le_rfl le_rfl rfl rfl
  | revoke inviter invitee now => exact ages_revoke s inviter invitee now
  | expire id => exact ages_expire k s id
  | _ => exact .refl s

/-- **Every statement keeps the indexes.** -/
theorem exec_indexed {k : Kind} {s : Store} (hs : Indexed k s) (chance : Chance) (c : InviteCmd) :
    Indexed k (inviteExec k chance c s).2 := by
  by_cases hc : ∀ w, c ≠ .commit w
  · exact (exec_ages hc chance s).indexed hs
  · obtain ⟨w, rfl⟩ := not_forall_not.mp hc
    rcases commit_cases hs w with hsame | ⟨d, id, s₁, s₂, hages, _, _, _, hwritten, hafter⟩
    · show Indexed k (s.commit k w).2
      rw [hsame]
      exact hs
    · exact hafter.indexed (hwritten.indexed ((hages fun _ => True).indexed hs))

end TransportBackend.InviteAges
