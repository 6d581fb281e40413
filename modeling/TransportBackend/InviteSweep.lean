import TransportBackend.InviteService

/-!
# What a sweep leaves

`expireStaleInvites` reads the stale invites once and takes them one after another, each in a transaction of its own.
Run by itself it leaves tables that can be described row by row; the loop keeps the description, with the invites taken
so far in the place of all.

* `isStale`, `staleRows` — what the sweep reads;
* `Goes` — the account is deleted: nobody came in, every invite of it is over, and the last one taken made it;
* `Swept` — the tables once these invites are taken;
* `expireStaleInvites_run` — the service takes them in the order the query answers;
* `sweep_exact` — **the sweep counts and revokes the stale invites, and deletes the accounts that go, and no others**.
-/

namespace TransportBackend.InviteSweep

open TransportBackend.AtomicProgram
open TransportBackend.AtomicProgram.Prog
open TransportBackend.InviteService
open TransportBackend.InviteStore
open TransportBackend.KeyedTable

section Sweep

variable (hours : ℕ) (s : Store)

/-- The sweep reads the row. -/
def isStale (i : Invite) : Bool := i.usedAt.isNone && i.revokedAt.isNone && i.createdAt + hours * hourMs < s.clock

def staleRows : List Invite := s.invites.rows.filter (isStale hours s)

/-- The account is gone once these invites are taken, the latest of them first. -/
structure Goes (taken : List Invite) (u : User) : Prop where
  unlinked : u.linked = false
  ended : ∀ i ∈ s.invites.rows, i.invitee = u.id → i.usedAt = none ∧ (i.revokedAt.isSome = true ∨ i ∈ taken)
  made : ∃ made, taken.find? (fun i => i.invitee = u.id) = some made ∧
    u.createdAt ≤ made.createdAt + 60000 ∧ made.createdAt ≤ u.createdAt + 60000

/-- No account of this id is gone. -/
def Stays (taken : List Invite) (id : ℕ) : Prop := ∀ u ∈ s.users.rows, u.id = id → ¬Goes s taken u

/-- The tables once these invites are taken. -/
structure Swept (taken : List Invite) (t : Store) : Prop where
  clock : t.clock = s.clock
  invites : ∀ j, j ∈ t.invites.rows ↔ Stays s taken j.invitee ∧
    ((j ∈ s.invites.rows ∧ j ∉ taken) ∨ ∃ i ∈ taken, j = { i with revokedAt := some s.clock })
  users : ∀ u, u ∈ t.users.rows ↔ u ∈ s.users.rows ∧ ¬Goes s taken u

end Sweep

variable {k : Kind} {hours : ℕ} {s t : Store} {taken : List Invite} {x : Invite}

/-! ### One account -/

/-- An invite of another account changes nothing for this one. -/
theorem goes_cons_of_ne {u : User} (hne : x.invitee ≠ u.id) : Goes s (x :: taken) u ↔ Goes s taken u := by
  have hfind : (x :: taken).find? (fun i => i.invitee = u.id) = taken.find? (fun i => i.invitee = u.id) :=
    List.find?_cons_of_neg (by simp [hne])
  constructor
  · intro h
    refine ⟨h.unlinked, fun i hi hid => ?_, hfind ▸ h.made⟩
    obtain ⟨hunused, hrevoked | htaken⟩ := h.ended i hi hid
    · exact ⟨hunused, .inl hrevoked⟩
    · rcases List.mem_cons.mp htaken with rfl | htaken
      · exact absurd hid hne
      · exact ⟨hunused, .inr htaken⟩
  · intro h
    refine ⟨h.unlinked, fun i hi hid => ?_, hfind.symm ▸ h.made⟩
    obtain ⟨hunused, hended⟩ := h.ended i hi hid
    exact ⟨hunused, hended.imp_right (List.mem_cons_of_mem x)⟩

theorem stays_cons_of_ne {id : ℕ} (hne : x.invitee ≠ id) : Stays s (x :: taken) id ↔ Stays s taken id := by
  have hsame : ∀ u : User, u.id = id → (Goes s (x :: taken) u ↔ Goes s taken u) := fun u hid =>
    goes_cons_of_ne fun h => hne (h.trans hid)
  exact ⟨fun h u hu hid hgoes => h u hu hid ((hsame u hid).mpr hgoes),
    fun h u hu hid hgoes => h u hu hid ((hsame u hid).mp hgoes)⟩

/-- Neither does an invite whose account stays. -/
theorem stays_cons_of_kept (hkept : Stays s (x :: taken) x.invitee) (hstays : Stays s taken x.invitee) (id : ℕ) :
    Stays s (x :: taken) id ↔ Stays s taken id := by
  by_cases hid : x.invitee = id
  · exact iff_of_true (hid ▸ hkept) (hid ▸ hstays)
  · exact stays_cons_of_ne hid

/-- While an invite waits to be taken its account is there. -/
theorem stays_of_stale (hx : x ∈ s.invites.rows) (hstale : isStale hours s x = true) (hnew : x ∉ taken) :
    Stays s taken x.invitee := by
  intro u hu hid hgoes
  simp only [isStale, Bool.and_eq_true, Option.isNone_iff_eq_none] at hstale
  obtain ⟨_, hrevoked | htaken⟩ := hgoes.ended x hx hid.symm
  · rw [hstale.1.2] at hrevoked
    cases hrevoked
  · exact hnew htaken

/-! ### One transaction -/

section Taken

variable (h : Swept s taken t) (htaken : ∀ i ∈ taken, i ∈ s.invites.rows) (hx : x ∈ s.invites.rows)
  (hstale : isStale hours s x = true) (hnew : x ∉ taken)

include h htaken hx hstale hnew

/-- The invite is revoked, and nothing else is. -/
theorem mem_revokeStale (j : Invite) : j ∈ (t.revokeStale k x).invites.rows ↔ Stays s taken j.invitee ∧
    ((j ∈ s.invites.rows ∧ j ∉ x :: taken) ∨ ∃ i ∈ x :: taken, j = { i with revokedAt := some s.clock }) := by
  have hput : j ∈ (t.revokeStale k x).invites.rows ↔
      j = { x with revokedAt := some s.clock } ∨ (j.id ≠ x.id ∧ j ∈ t.invites.rows) := by
    rw [← h.clock]
    exact Table.mem_put
  have hstays : Stays s taken x.invitee := stays_of_stale hx hstale hnew
  rw [hput]
  constructor
  · rintro (rfl | ⟨hne, hj⟩)
    · exact ⟨hstays, .inr ⟨x, List.mem_cons_self, rfl⟩⟩
    · obtain ⟨hstays, ⟨hj, hnot⟩ | ⟨i, hi, rfl⟩⟩ := (h.invites j).mp hj
      · refine ⟨hstays, .inl ⟨hj, fun hmem => ?_⟩⟩
        rcases List.mem_cons.mp hmem with rfl | hmem
        · exact hne rfl
        · exact hnot hmem
      · exact ⟨hstays, .inr ⟨i, List.mem_cons_of_mem x hi, rfl⟩⟩
  · rintro ⟨hstays, ⟨hj, hnot⟩ | ⟨i, hi, rfl⟩⟩
    · refine .inr ⟨fun hid => ?_, (h.invites j).mpr ⟨hstays, .inl ⟨hj, fun hmem => hnot (List.mem_cons_of_mem x hmem)⟩⟩⟩
      exact hnot (List.mem_cons.mpr (.inl (Table.eq_of_key hj hx hid)))
    · rcases List.mem_cons.mp hi with rfl | hi
      · exact .inl rfl
      · refine .inr ⟨fun hid => ?_, (h.invites _).mpr ⟨hstays, .inr ⟨i, hi, rfl⟩⟩⟩
        exact hnew (Table.eq_of_key (htaken i hi) hx hid ▸ hi)

/-- The statement that deletes accounts finds the account that goes with this invite. -/
theorem unvisited_iff {u : User} (hid : u.id = x.invitee) :
    (t.revokeStale k x).unvisited u x = true ↔ Goes s (x :: taken) u := by
  have hmem := mem_revokeStale (k := k) h htaken hx hstale hnew
  have hstays : Stays s taken u.id := hid ▸ stays_of_stale hx hstale hnew
  have hfind : (x :: taken).find? (fun i => i.invitee = u.id) = some x :=
    List.find?_cons_of_pos (by simp [hid])
  have hall : ((t.revokeStale k x).invitesOf u.id).all (fun i => i.usedAt.isNone && i.revokedAt.isSome) = true ↔
      ∀ i ∈ s.invites.rows, i.invitee = u.id → i.usedAt = none ∧ (i.revokedAt.isSome = true ∨ i ∈ x :: taken) := by
    simp only [Store.invitesOf, List.all_eq_true, List.mem_filter, decide_eq_true_eq, Bool.and_eq_true,
      Option.isNone_iff_eq_none]
    constructor
    · intro hended i hi hinvitee
      by_cases hin : i ∈ x :: taken
      · have hrow := (hmem { i with revokedAt := some s.clock }).mpr ⟨hinvitee ▸ hstays, .inr ⟨i, hin, rfl⟩⟩
        exact ⟨(hended _ ⟨hrow, hinvitee⟩).1, .inr hin⟩
      · have hrow := (hmem i).mpr ⟨hinvitee ▸ hstays, .inl ⟨hi, hin⟩⟩
        obtain ⟨hunused, hrevoked⟩ := hended i ⟨hrow, hinvitee⟩
        exact ⟨hunused, .inl hrevoked⟩
    · rintro hended j ⟨hj, hinvitee⟩
      obtain ⟨_, ⟨hj, hnot⟩ | ⟨i, hi, rfl⟩⟩ := (hmem j).mp hj
      · obtain ⟨hunused, hrevoked⟩ := hended j hj hinvitee
        exact ⟨hunused, hrevoked.resolve_right hnot⟩
      · have hrow : i ∈ s.invites.rows := by
          rcases List.mem_cons.mp hi with rfl | hi
          · exact hx
          · exact htaken i hi
        exact ⟨(hended i hrow hinvitee).1, rfl⟩
  unfold Store.unvisited
  rw [Bool.and_eq_true, Bool.and_eq_true, hall, decide_eq_true_eq, Bool.not_eq_true']
  exact ⟨fun hgoes => ⟨hgoes.2, hgoes.1.2, x, hfind, hgoes.1.1⟩, fun hgoes => by
    obtain ⟨made, hmade, hnear⟩ := hgoes.made
    obtain rfl : x = made := Option.some.inj (hfind.symm.trans hmade)
    exact ⟨⟨hnear, hgoes.ended⟩, hgoes.unlinked⟩⟩

/-- **One transaction of the sweep** takes its invite, whatever was taken before. -/
theorem swept_expire : (t.expire k x.id).1 = true ∧ Swept s (x :: taken) (t.expire k x.id).2 := by
  have hstays : Stays s taken x.invitee := stays_of_stale hx hstale hnew
  have hxt : x ∈ t.invites.rows := (h.invites x).mpr ⟨hstays, .inl ⟨hx, hnew⟩⟩
  have hmem := mem_revokeStale (k := k) h htaken hx hstale hnew
  have hunused : x.usedAt = none ∧ x.revokedAt = none := by
    simp only [isStale, Bool.and_eq_true, Option.isNone_iff_eq_none] at hstale
    exact hstale.1
  have hexpire : t.expire k x.id = (true, (t.revokeStale k x).deleteUnvisited x) := by
    unfold Store.expire
    rw [Table.mem_rows.mp hxt]
    exact if_pos hunused
  rw [hexpire]
  refine ⟨rfl, ?_⟩
  -- the account of the invite is there unless there never was one
  have hthere : ∀ u ∈ s.users.rows, u.id = x.invitee → u ∈ t.users.rows := fun u hu hid =>
    (h.users u).mpr ⟨hu, hstays u hu hid⟩
  have husers : ∀ u : User, u.id ≠ x.invitee → (u ∈ t.users.rows ↔ u ∈ s.users.rows ∧ ¬Goes s (x :: taken) u) := by
    intro u hne
    rw [h.users u, goes_cons_of_ne (Ne.symm hne)]
  unfold Store.deleteUnvisited
  cases hget : (t.revokeStale k x).users.get x.invitee with
  | none =>
      have hnone : ∀ u ∈ s.users.rows, u.id ≠ x.invitee := by
        intro u hu hid
        have hfound : t.users.get x.invitee = some u := hid ▸ Table.mem_rows.mp (hthere u hu hid)
        exact absurd (hget.symm.trans hfound) (by simp)
      have hkept : Stays s (x :: taken) x.invitee := fun u hu hid => absurd hid (hnone u hu)
      refine ⟨h.clock, fun j => ?_, fun u => ?_⟩
      · rw [stays_cons_of_kept hkept hstays]
        exact hmem j
      · by_cases hid : u.id = x.invitee
        · refine iff_of_false (fun hu => ?_) (fun hu => hnone u hu.1 hid)
          exact hnone u ((h.users u).mp hu).1 hid
        · exact husers u hid
  | some u =>
      have hid : u.id = x.invitee := Table.key_of_get hget
      have hut : u ∈ t.users.rows := Table.mem_of_get hget
      have hus : u ∈ s.users.rows := ((h.users u).mp hut).1
      have honly : ∀ v ∈ s.users.rows, v.id = x.invitee → v = u := fun v hv hv' =>
        Table.eq_of_key hv hus (hv'.trans hid.symm)
      have hgoes := unvisited_iff (k := k) h htaken hx hstale hnew hid
      show Swept s (x :: taken)
        (if (t.revokeStale k x).unvisited u x then (t.revokeStale k x).deleteUser u.id else t.revokeStale k x)
      by_cases hunvisited : (t.revokeStale k x).unvisited u x = true
      · rw [if_pos hunvisited]
        have hgone : Goes s (x :: taken) u := hgoes.mp hunvisited
        refine ⟨h.clock, fun j => ?_, fun v => ?_⟩
        · have hfilter : j ∈ ((t.revokeStale k x).deleteUser u.id).invites.rows ↔
              j ∈ (t.revokeStale k x).invites.rows ∧ j.invitee ≠ u.id := by
            simp [Store.deleteUser, List.mem_filter]
          rw [hfilter, hmem j]
          by_cases hj : x.invitee = j.invitee
          · refine iff_of_false (fun hkept => hkept.2 (hj.symm.trans hid.symm)) fun hkept => ?_
            exact hkept.1 u hus (hid.trans hj) hgone
          · rw [stays_cons_of_ne hj]
            exact ⟨fun hkept => hkept.1, fun hkept => ⟨hkept, fun hsame => hj (hid.symm.trans hsame.symm)⟩⟩
        · have herase : v ∈ ((t.revokeStale k x).deleteUser u.id).users.rows ↔ v.id ≠ u.id ∧ v ∈ t.users.rows :=
            Table.mem_erase
          rw [herase]
          by_cases hv : v.id = x.invitee
          · refine iff_of_false (fun hkept => hkept.1 (hv.trans hid.symm)) fun hkept => ?_
            exact hkept.2 (honly v hkept.1 hv ▸ hgone)
          · rw [husers v hv]
            exact ⟨fun hkept => hkept.2, fun hkept => ⟨fun hsame => hv (hsame.trans hid), hkept⟩⟩
      · rw [if_neg hunvisited]
        have hkept : Stays s (x :: taken) x.invitee := by
          intro v hv hid'
          rw [honly v hv hid']
          exact fun hgone => hunvisited (hgoes.mpr hgone)
        refine ⟨h.clock, fun j => ?_, fun v => ?_⟩
        · rw [stays_cons_of_kept hkept hstays]
          exact hmem j
        · by_cases hv : v.id = x.invitee
          · constructor
            · intro hvt
              have hvs := ((h.users v).mp hvt).1
              exact ⟨hvs, hkept v hvs hv⟩
            · exact fun hvs => hthere v hvs.1 hv
          · exact husers v hv

end Taken

/-! ### The whole sweep -/

/-- The loop, from any point of the sweep. -/
theorem swept_each (chance : Chance) {xs : List Invite} (h : Swept s taken t) (hnodup : xs.Nodup)
    (htaken : ∀ i ∈ taken, i ∈ s.invites.rows)
    (hxs : ∀ x ∈ xs, x ∈ s.invites.rows ∧ isStale hours s x = true ∧ x ∉ taken) :
    (expireEach (xs.map Invite.id)).After (inviteExec k chance) t
      (fun n t' => n = xs.length ∧ Swept s (xs.reverse ++ taken) t') (fun _ => False) := by
  induction xs generalizing taken t with
  | nil => exact ⟨rfl, h⟩
  | cons x xs ih =>
      obtain ⟨hrow, hstale, hnew⟩ := hxs x List.mem_cons_self
      obtain ⟨hnot, hnodup⟩ := List.nodup_cons.mp hnodup
      obtain ⟨hgone, hswept⟩ := swept_expire (k := k) h htaken hrow hstale hnew
      have hrest := ih hswept hnodup (fun i hi => ?_) fun y hy => ?_
      · rw [List.map_cons, expireEach, after_bind, issue, after_perform, after_bind]
        refine after_mono hrest (fun n t' hn => ?_) (fun _ hfalse => hfalse)
        show (if (t.expire k x.id).1 then n + 1 else n) = (x :: xs).length ∧ _
        rw [if_pos hgone, hn.1, List.reverse_cons, List.append_assoc]
        exact ⟨rfl, hn.2⟩
      · rcases List.mem_cons.mp hi with rfl | hi
        · exact hrow
        · exact htaken i hi
      · obtain ⟨hy', hstale', hnew'⟩ := hxs y (List.mem_cons_of_mem x hy)
        refine ⟨hy', hstale', fun hmem => ?_⟩
        rcases List.mem_cons.mp hmem with rfl | hmem
        · exact hnot hy
        · exact hnew' hmem

/-- Before anything is taken the tables are as they are. -/
theorem swept_nil (s : Store) : Swept s [] s := by
  have hstays : ∀ id, Stays s [] id := by
    intro id u _ _ hgoes
    obtain ⟨_, hnone, _⟩ := hgoes.made
    cases hnone
  refine ⟨rfl, fun j => ?_, fun u => ?_⟩
  · refine ⟨fun hj => ⟨hstays _, .inl ⟨hj, List.not_mem_nil⟩⟩, ?_⟩
    rintro ⟨_, hj | ⟨_, hnone, _⟩⟩
    · exact hj.1
    · cases hnone
  · exact ⟨fun hu => ⟨hu, hstays u.id u hu rfl⟩, fun hu => hu.1⟩

/-- A sweep takes what it has read, in the order the query answers. -/
theorem expireStaleInvites_run (k : Kind) (hours : ℕ) (chance : Chance) (s : Store) :
    (expireStaleInvites hours).run (inviteExec k chance) s =
      (expireEach ((staleRows hours s).map Invite.id)).run (inviteExec k chance) s := rfl

/-- **What a sweep leaves**, in whatever order it takes the stale invites.  Run by itself, it counts them; the invites
left are those whose account stays, the stale ones revoked now and the others as they were; and an account is deleted
exactly when no messenger is linked to it, nobody came in by any invite of it, every one of them is revoked or stale,
and the stale one of them that was taken last was made with the account. -/
theorem sweep_exact (k : Kind) (hours : ℕ) (chance : Chance) (s : Store) (order : List Invite)
    (horder : order.Perm (staleRows hours s)) : ∃ s',
    (expireEach (order.map Invite.id)).run (inviteExec k chance) s = (.ok (staleRows hours s).length, s') ∧
    (∀ j, j ∈ s'.invites.rows ↔ Stays s order.reverse j.invitee ∧
      ((j ∈ s.invites.rows ∧ isStale hours s j = false) ∨
        ∃ i ∈ s.invites.rows, isStale hours s i = true ∧ j = { i with revokedAt := some s.clock })) ∧
    ∀ u, u ∈ s'.users.rows ↔ u ∈ s.users.rows ∧ ¬Goes s order.reverse u := by
  have hstale : ∀ i, i ∈ order ↔ i ∈ s.invites.rows ∧ isStale hours s i = true := fun i =>
    horder.mem_iff.trans List.mem_filter
  have hnodup : order.Nodup := horder.nodup_iff.mpr ((List.Nodup.of_map _ s.invites.nodup).filter _)
  have hafter : (expireEach (order.map Invite.id)).After (inviteExec k chance) s
      (fun n s' => n = order.length ∧ Swept s (order.reverse ++ []) s') (fun _ => False) := by
    have hnew : ∀ x ∈ order, x ∈ s.invites.rows ∧ isStale hours s x = true ∧ x ∉ ([] : List Invite) := by
      intro x hx
      obtain ⟨hrow, hx⟩ := (hstale x).mp hx
      exact ⟨hrow, hx, List.not_mem_nil⟩
    exact swept_each chance (swept_nil s) hnodup (fun i hi => absurd hi List.not_mem_nil) hnew
  unfold After at hafter
  generalize (expireEach (order.map Invite.id)).run (inviteExec k chance) s = out at hafter
  obtain ⟨n | n, s'⟩ := out
  · exact hafter.elim
  · obtain ⟨rfl, hswept⟩ := hafter
    rw [List.append_nil] at hswept
    refine ⟨s', by rw [horder.length_eq], fun j => ?_, hswept.users⟩
    rw [hswept.invites j]
    simp only [List.mem_reverse, hstale, not_and, Bool.not_eq_true]
    refine and_congr_right fun _ => or_congr ?_ ?_
    · exact ⟨fun hj => ⟨hj.1, hj.2 hj.1⟩, fun hj => ⟨hj.1, fun _ => hj.2⟩⟩
    · exact exists_congr fun i => and_assoc

/-! ### A driver invited twice -/

/-- The invite that made the driver's account. -/
def firstInvite : Invite where
  id := 101
  inviter := 1
  invitee := 100
  mobile := "09121234567".toList
  token := "abcdefghijklmnop"
  createdAt := 1000
  usedAt := none
  revokedAt := none
  usedByLink := false
  direct := false

/-- Another company's, a day later. -/
def secondInvite : Invite :=
  { firstInvite with id := 102, inviter := 2, token := "abcdefghijklmnoq", createdAt := 1000 + 25 * hourMs }

def invitedDriver : User := ⟨100, "09121234567".toList, 1000, [⟨.driver, true⟩], .none, false⟩

/-- Both are over, and nobody came in. -/
def reinvited : Store where
  clock := 1000 + 60 * hourMs
  nextId := 103
  roles := [.driver]
  parents := []
  users := Table.empty.put invitedDriver
  invites := (Table.empty.put firstInvite).put secondInvite
  factories := []

/-- Taken last, the invite that made the account takes the account with it; taken first, it leaves it. -/
theorem sweep_exact_reinvited : (∃ s', (expireStaleInvites 24).run (inviteExec .driver ⟨"", true⟩) reinvited = (.ok 2, s') ∧
      invitedDriver ∈ s'.users.rows) ∧
    ∃ s', (expireEach [102, 101]).run (inviteExec .driver ⟨"", true⟩) reinvited = (.ok 2, s') ∧
      invitedDriver ∉ s'.users.rows := by
  have hrows : reinvited.invites.rows = [firstInvite, secondInvite] := by decide
  have hstale : staleRows 24 reinvited = [firstInvite, secondInvite] := by decide
  constructor
  · obtain ⟨s', hrun, _, husers⟩ := sweep_exact .driver 24 ⟨"", true⟩ reinvited (staleRows 24 reinvited) (.refl _)
    rw [hstale] at hrun husers
    refine ⟨s', ?_, (husers invitedDriver).mpr ⟨by decide, fun hgoes => ?_⟩⟩
    · rw [expireStaleInvites_run, hstale]
      exact hrun
    · obtain ⟨made, hmade, _, hnear⟩ := hgoes.made
      obtain rfl : secondInvite = made := Option.some.inj hmade
      exact absurd hnear (by decide)
  · obtain ⟨s', hrun, _, husers⟩ := sweep_exact .driver 24 ⟨"", true⟩ reinvited [secondInvite, firstInvite]
      (hstale ▸ List.Perm.swap _ _ _)
    rw [hstale] at hrun
    refine ⟨s', hrun, fun hkept => ((husers invitedDriver).mp hkept).2 ⟨rfl, fun i hi _ => ?_, ?_⟩⟩
    · rw [hrows] at hi
      rcases List.mem_pair.mp hi with rfl | rfl
      · exact ⟨rfl, .inr (by simp)⟩
      · exact ⟨rfl, .inr (by simp)⟩
    · exact ⟨firstInvite, rfl, by decide, by decide⟩

end TransportBackend.InviteSweep
