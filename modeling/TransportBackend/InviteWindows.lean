import TransportBackend.InviteAges
import TransportBackend.ReadWindows

/-!
# What a call knows when it invites

A transaction that invites decides by what it has read: the account of the number, the rows of that account, its own
row among them, and the time.

* `windows` — what each answer tells, and which statements disturb it;
* `Cleared` — what the rows of an account look like once `assertInvitable` let the inviter pass;
* `Fits` — what every commit rests on;
* `accepts_call` — **every call of the services commits only what fits**, whatever happens between its statements.
-/

namespace TransportBackend.InviteWindows

open TransportBackend.AtomicProgram
open TransportBackend.InterleavedRun
open TransportBackend.InviteAges
open TransportBackend.InviteService
open TransportBackend.InviteStore
open TransportBackend.KeyedTable
open TransportBackend.MonitoredProgram
open TransportBackend.ReadWindows

/-! ### Windows -/

/-- What something was read of. -/
inductive Key where
  | time (t : ℕ)
  | account (mobile : Mobile)
  | row (id : ℕ)
  | rows (mobile : Mobile)
  /-- Which of the rows may wait, whatever happens to them. -/
  | lone (mobile : Mobile)
  deriving DecidableEq

/-- What was read. -/
inductive Read where
  /-- The time was come. -/
  | time
  /-- The account of the number, and whether it has the role of the kind. -/
  | account (id : ℕ) (member : Bool)
  | row (inviter : ℕ) (mobile : Mobile)
  /-- All the rows of the number. -/
  | rows (invites : List Invite)

def opens (k : Kind) : (c : InviteCmd) → InviteResp c → Key → Option Read
  | .now, t => fun key => if key = .time t then some .time else none
  | .findUser mobile, none => fun key => if key = .rows mobile then some (.rows []) else none
  | .findUser mobile, some u => fun key =>
      if key = .account mobile then some (.account u.id (decide (k.role ∈ u.activeRoles)))
      else if key = .rows mobile ∧ k.role ∉ u.activeRoles then some (.rows []) else none
  | .findInvites u, invites => fun
      | .rows mobile => if mobile = u.mobile ∧ invites ≠ [] then some (.rows invites) else none
      | .lone mobile => if mobile = u.mobile ∧ invites ≠ [] then some (.rows invites) else none
      | .row id => (invites.find? fun i => i.id = id).map fun i => .row i.inviter u.mobile
      | _ => none
  | .findInvite _ u, some i => fun key => if key = .row i.id then some (.row i.inviter u.mobile) else none
  | _, _ => fun _ => none

/-- The transaction changes what the rows of its number say. -/
def Writes (w : Commit) : Prop := w.direct ≠ none ∨ ∀ id, w.invite ≠ .keep id

instance (w : Commit) : Decidable (Writes w) :=
  decidable_of_iff (w.direct ≠ none ∨ (match w.invite with | .keep _ => false | _ => true) = true) (by
    unfold Writes
    cases w.invite <;> simp)

def disturbs : InviteCmd → Key → Bool
  | .commit w, .rows mobile => mobile = w.mobile && decide (Writes w)
  | .setUsed i _, .rows mobile => mobile = i.mobile
  | .markInvitesUsed m, .rows mobile => mobile = m
  | _, _ => false

section Windows

variable (k : Kind) (hours : ℕ)

/-- No two of the rows wait. -/
def Lone (t : ℕ) (invites : List Invite) : Prop :=
  ∀ i ∈ invites, ∀ j ∈ invites, isInviteWaiting hours t i = true → isInviteWaiting hours t j = true → i = j

/-- Of the rows read, none but the inviter's own may wait. -/
def Clear (q : Held Key Read) (inviter : ℕ) (invites : List Invite) : Prop :=
  ∀ i ∈ invites, i.inviter = inviter ∨ ∃ t, q (.time t) = some .time ∧ isInviteWaiting hours t i = false

/-- The rows of an account that `assertInvitable` let the inviter pass, and what is known of each of them: nobody came in
with the row that may be written again. -/
structure Cleared (q : Held Key Read) (inviter : ℕ) (mobile : Mobile) (invites : List Invite) : Prop where
  rows : q (.rows mobile) = some (.rows invites)
  clear : Clear hours q inviter invites
  unused : ∀ i ∈ invites, k = .company ∨ i.inviter = inviter → i.usedAt = none

/-- The row is the inviter's, of this number. -/
def OwnRow (q : Held Key Read) (inviter : ℕ) (mobile : Mobile) (id : ℕ) : Prop :=
  ∃ c, q (.row id) = some (.row c mobile) ∧ (k ≠ .company → c = inviter)

/-- What a transaction writes fits what its call has read. -/
structure Fits (q : Held Key Read) (w : Commit) : Prop where
  account : match w.account with
    | .keep id _ => ∃ member, q (.account w.mobile) = some (.account id member) ∧
        ((∃ token, w.invite = .insert token) → member = true)
    | .giveRole id => ∃ member, q (.account w.mobile) = some (.account id member)
    | .create => True
  own : match w.invite with
    | .keep id => OwnRow k q w.inviter w.mobile id
    | .renew id _ _ => OwnRow k q w.inviter w.mobile id
    | .insert _ => True
  cleared : (∀ id, w.invite ≠ .keep id) → ∃ invites, Cleared k hours q w.inviter w.mobile invites

/-- The account of the number was read. -/
def Found (q : Held Key Read) (u : User) : Prop := ∃ member, q (.account u.mobile) = some (.account u.id member)

def windows : Windows InviteResp Key Read where
  opens := opens k
  closes := disturbs
  disturbs := disturbs
  allowed q
    | .findInvites u => Found q u
    | .findInvite _ u => Found q u
    | .commit w => Fits k hours q w
    | _ => True
  answers q
    | .now, t => ∀ mobile invites, q (.lone mobile) = some (.rows invites) → Lone hours t invites
    | .findUser mobile, found => ∀ u ∈ found, u.mobile = mobile
    | .findInvites u, invites => (∀ i ∈ invites, i.invitee = u.id) ∧
        (∀ i ∈ invites, ∀ j ∈ invites, i.id = j.id → i = j) ∧ ∀ i ∈ invites, ∀ j ∈ invites, k.unique i = k.unique j → i = j
    | .findInvite inviter _, found => ∀ i ∈ found, i.inviter = inviter
    | _, _ => True

end Windows

/-! ### What stays known -/

section Known

variable {k : Kind} {hours : ℕ} {q : Held Key Read} {c : InviteCmd} {r : InviteResp c}

/-- The reads that write nothing. -/
def Quiet (c : InviteCmd) : Prop := ∀ key, disturbs c key = false

theorem next_of_quiet (hc : Quiet c) (key : Key) :
    (windows k hours).monitor.next q c r key = (opens k c r key).or (q key) := by
  show (opens k c r key).or (if disturbs c key then none else q key) = _
  rw [hc key]
  rfl

theorem opens_time {t : ℕ} : opens k c r (.time t) = none ∨ opens k c r (.time t) = some .time := by
  unfold opens
  split <;> grind

/-- What was read of the account and of all its rows, and the times come, are known later too. -/
structure Kept (q q' : Held Key Read) : Prop where
  time : ∀ t, q (.time t) = some .time → q' (.time t) = some .time
  account : ∀ mobile, q' (.account mobile) = q (.account mobile)
  rows : ∀ mobile, q' (.rows mobile) = q (.rows mobile)

/-- So is what was read of single rows. -/
structure Onward (q q' : Held Key Read) : Prop extends Kept q q' where
  row : ∀ id, q' (.row id) = q (.row id)

theorem Kept.refl (q : Held Key Read) : Kept q q := ⟨fun _ h => h, fun _ => rfl, fun _ => rfl⟩

theorem Kept.trans {q₁ q₂ q₃ : Held Key Read} (h : Kept q₁ q₂) (h' : Kept q₂ q₃) : Kept q₁ q₃ :=
  ⟨fun t ht => h'.time t (h.time t ht), fun m => (h'.account m).trans (h.account m),
    fun m => (h'.rows m).trans (h.rows m)⟩

theorem Onward.refl (q : Held Key Read) : Onward q q := ⟨.refl q, fun _ => rfl⟩

theorem Onward.trans {q₁ q₂ q₃ : Held Key Read} (h : Onward q₁ q₂) (h' : Onward q₂ q₃) : Onward q₁ q₃ :=
  ⟨h.toKept.trans h'.toKept, fun id => (h'.row id).trans (h.row id)⟩

theorem Cleared.kept {q' : Held Key Read} {inviter : ℕ} {mobile : Mobile} {invites : List Invite}
    (h : Cleared k hours q inviter mobile invites) (hq : Kept q q') : Cleared k hours q' inviter mobile invites := by
  refine ⟨(hq.rows mobile).trans h.rows, fun i hi => ?_, h.unused⟩
  rcases h.clear i hi with hown | ⟨t, ht, hwaiting⟩
  · exact .inl hown
  · exact .inr ⟨t, hq.time t ht, hwaiting⟩

theorem OwnRow.onward {q' : Held Key Read} {inviter id : ℕ} {mobile : Mobile} (h : OwnRow k q inviter mobile id)
    (hq : Onward q q') : OwnRow k q' inviter mobile id := by
  obtain ⟨c, hc, hinviter⟩ := h
  exact ⟨c, (hq.row id).trans hc, hinviter⟩

/-- A statement that opens nothing but a time. -/
theorem onward_next (hc : Quiet c) (hopens : ∀ key, opens k c r key = none ∨ ∃ t, key = .time t) :
    Onward q ((windows k hours).monitor.next q c r) := by
  have hsame : ∀ key, (∀ t, key ≠ .time t) → (windows k hours).monitor.next q c r key = q key := by
    intro key hkey
    rw [next_of_quiet hc]
    rcases hopens key with hnone | ⟨t, ht⟩
    · rw [hnone]
      rfl
    · exact absurd ht (hkey t)
  refine ⟨⟨fun t ht => ?_, fun m => hsame _ (fun t h => by cases h), fun m => hsame _ (fun t h => by cases h)⟩,
    fun id => hsame _ (fun t h => by cases h)⟩
  rw [next_of_quiet hc]
  rcases opens_time (k := k) (c := c) (r := r) (t := t) with hnone | hsome
  · rw [hnone, ht]
    rfl
  · rw [hsome]
    rfl

theorem onward_now (t : ℕ) : Onward q ((windows k hours).monitor.next q .now t) := by
  refine onward_next (c := .now) (fun key => rfl) fun key => ?_
  by_cases hkey : key = .time t
  · exact .inr ⟨t, hkey⟩
  · exact .inl (if_neg hkey)

theorem onward_inviteToken (token : String) : Onward q ((windows k hours).monitor.next q .inviteToken token) := by
  refine onward_next (c := .inviteToken) (fun key => rfl) fun key => ?_
  exact .inl rfl

theorem onward_findRole (role : RoleName) (defined : Bool) :
    Onward q ((windows k hours).monitor.next q (.findRole role) defined) := by
  refine onward_next (c := .findRole role) (fun key => rfl) fun key => ?_
  exact .inl rfl

end Known

/-! ### The programs -/

section Programs

variable {k : Kind} {hours : ℕ} {q : Held Key Read}

/-- What `assertInvitable` lets pass. -/
theorem assertInvitable_none {now : ℕ} {invites : List Invite} {inviterId accountCreatedAt : ℕ} {noun : String}
    (h : assertInvitable hours now invites inviterId accountCreatedAt noun = none) :
    invites ≠ [] ∧ ((∃ i ∈ invites, i.inviter = inviterId ∧ isInviteWaiting hours now i = true) ∨
      ((∀ i ∈ invites, isInviteWaiting hours now i = false) ∧ ∀ i ∈ invites, i.usedAt = none)) := by
  unfold assertInvitable at h
  dsimp only at h
  split at h
  · rename_i hown
    obtain ⟨i, hi, hinviter⟩ := List.any_eq_true.mp hown
    obtain ⟨hi, hwaiting⟩ := List.mem_filter.mp hi
    exact ⟨List.ne_nil_of_mem hi, .inl ⟨i, hi, of_decide_eq_true hinviter, hwaiting⟩⟩
  · split at h
    · cases h
    · rename_i hnone
      split at h
      · rename_i hmade
        simp only [Bool.and_eq_true, Bool.not_eq_true', List.any_eq_false] at hmade
        obtain ⟨i, hi, _⟩ := List.any_eq_true.mp hmade.1
        refine ⟨List.ne_nil_of_mem hi, .inr ⟨fun j hj => ?_, fun j hj => ?_⟩⟩
        · have hfilter := List.filter_eq_nil_iff.mp (not_not.mp hnone) j hj
          exact Bool.eq_false_iff.mpr hfilter
        · exact Option.not_isSome_iff_eq_none.mp (hmade.2 j hj)
      · cases h

/-- **Whoever `assertInvitable` lets pass has cleared rows.** -/
theorem cleared_of_assertInvitable {now inviterId accountCreatedAt : ℕ} {mobile : Mobile} {invites : List Invite}
    {noun : String} (hrows : q (.rows mobile) = some (.rows invites)) (htime : q (.time now) = some .time)
    (hlone : Lone hours now invites) (hunique : ∀ i ∈ invites, ∀ j ∈ invites, k.unique i = k.unique j → i = j)
    (hsame : ∀ i ∈ invites, ∀ j ∈ invites, i.invitee = j.invitee)
    (h : assertInvitable hours now invites inviterId accountCreatedAt noun = none) :
    Cleared k hours q inviterId mobile invites := by
  rcases (assertInvitable_none h).2 with ⟨own, hown, hinviter, hwaiting⟩ | ⟨hnone, hunused⟩
  · refine ⟨hrows, fun i hi => ?_, fun i hi hmine => ?_⟩
    · cases hi' : isInviteWaiting hours now i with
      | false => exact .inr ⟨now, htime, hi'⟩
      | true =>
          obtain rfl := hlone i hi own hown hi' hwaiting
          exact .inl hinviter
    · have hsameRow : i = own := by
        refine hunique i hi own hown ?_
        unfold Kind.unique
        by_cases hk : k = .company
        · rw [if_pos hk, if_pos hk, hsame i hi own hown]
        · rw [if_neg hk, if_neg hk, hsame i hi own hown, hmine.resolve_left hk, hinviter]
      rw [hsameRow]
      simp only [isInviteWaiting, Bool.and_eq_true, Option.isNone_iff_eq_none] at hwaiting
      exact hwaiting.1.2
  · exact ⟨hrows, fun i hi => .inr ⟨now, htime, hnone i hi⟩, fun i hi _ => hunused i hi⟩

/-- What is known when the rows of a member are cleared. -/
structure Passed (k : Kind) (hours : ℕ) (q : Held Key Read) (inviterId : ℕ) (u : User) (member : Bool)
    (invites : List Invite) : Prop where
  account : q (.account u.mobile) = some (.account u.id member)
  cleared : Cleared k hours q inviterId u.mobile invites
  nonempty : invites ≠ []
  own : ∀ i ∈ invites, q (.row i.id) = some (.row i.inviter u.mobile)

theorem accepts_assertInvitableNow {inviterId : ℕ} {u : User} {member : Bool}
    (hfound : q (.account u.mobile) = some (.account u.id member)) :
    Accepts (windows k hours).monitor (assertInvitableNow k hours inviterId u) q
      (outcome (fun invites q' => Passed k hours q' inviterId u member invites) (fun _ _ => True)) := by
  unfold assertInvitableNow issue
  rw [accepts_bind, accepts_perform]
  refine ⟨⟨member, hfound⟩, fun invites hinvites => ?_⟩
  obtain ⟨hinvitee, hids, hunique⟩ := hinvites
  rw [outcome_ok, accepts_bind, accepts_perform]
  refine ⟨trivial, fun now hnow => ?_⟩
  rw [outcome_ok]
  cases hassert : assertInvitable hours now invites inviterId u.createdAt (noun k) with
  | some e => exact trivial
  | none =>
      rw [accepts_pure, outcome_ok]
      have hne := (assertInvitable_none hassert).1
      have hread : ∀ key, (windows k hours).monitor.next
          ((windows k hours).monitor.next q (.findInvites u) invites) .now now key =
          (opens k .now now key).or ((opens k (.findInvites u) invites key).or (q key)) := by
        intro key
        show (opens k .now now key).or _ = _
        rfl
      have hlone : Lone hours now invites := by
        refine hnow u.mobile invites ?_
        show (if u.mobile = u.mobile ∧ invites ≠ [] then some (Read.rows invites) else none).or _ = _
        rw [if_pos ⟨rfl, hne⟩]
        rfl
      refine ⟨?_, cleared_of_assertInvitable ?_ ?_ hlone hunique
        (fun i hi j hj => (hinvitee i hi).trans (hinvitee j hj).symm) hassert, hne, fun i hi => ?_⟩
      · rw [hread]
        exact hfound
      · rw [hread]
        show (if u.mobile = u.mobile ∧ invites ≠ [] then some (Read.rows invites) else none).or _ = _
        rw [if_pos ⟨rfl, hne⟩]
        rfl
      · rw [hread]
        show (if Key.time now = .time now then some Read.time else none).or _ = _
        rw [if_pos rfl]
        rfl
      · rw [hread]
        show ((invites.find? fun j => j.id = i.id).map fun j => Read.row j.inviter u.mobile).or _ = _
        have hfind : invites.find? (fun j => j.id = i.id) = some i := by
          cases hfind : invites.find? fun j => j.id = i.id with
          | none => exact absurd (decide_eq_true rfl) (List.find?_eq_none.mp hfind i hi)
          | some j =>
              have hj := List.mem_of_find?_eq_some hfind
              have hsame := List.find?_some hfind
              rw [decide_eq_true_eq] at hsame
              rw [hids j hj i hi hsame]
        rw [hfind]
        rfl

/-- What is known when the invite to write is chosen. -/
def Chosen (k : Kind) (q : Held Key Read) (inviterId : ℕ) (mobile : Mobile) (write : InviteWrite) : Prop :=
  match write with
  | .keep id => OwnRow k q inviterId mobile id
  | .renew id _ _ => OwnRow k q inviterId mobile id
  | .insert _ => True

theorem Chosen.onward {q' : Held Key Read} {inviterId : ℕ} {mobile : Mobile} {write : InviteWrite}
    (h : Chosen k q inviterId mobile write) (hq : Onward q q') : Chosen k q' inviterId mobile write := by
  cases write with
  | keep id => exact OwnRow.onward h hq
  | renew id token t => exact OwnRow.onward h hq
  | insert token => trivial

theorem accepts_newInvite (q : Held Key Read) : Accepts (windows k hours).monitor newInvite q
    (outcome (fun write q' => (∃ token, write.1 = .insert token) ∧ Onward q q') (fun _ _ => True)) := by
  unfold newInvite issue
  rw [accepts_bind, accepts_perform]
  exact ⟨trivial, fun token _ => ⟨⟨token, rfl⟩, onward_inviteToken token⟩⟩

theorem accepts_now {α : Type} {f : ℕ → Invites α} {q : Held Key Read} {Q : Except ServiceError α → Held Key Read → Prop}
    (h : ∀ t q', Onward q q' → Accepts (windows k hours).monitor (f t) q' Q) :
    Accepts (windows k hours).monitor (issue .now >>= f) q Q := by
  rw [accepts_bind, issue, accepts_perform]
  exact ⟨trivial, fun t _ => h t _ (onward_now t)⟩

theorem accepts_renew (i : Invite) (q : Held Key Read) : Accepts (windows k hours).monitor (renew i) q
    (outcome (fun write q' => (∃ token t, write.1 = .renew i.id token t) ∧ Onward q q') (fun _ _ => True)) := by
  unfold renew
  rw [accepts_bind, issue, accepts_perform]
  refine ⟨trivial, fun token _ => ?_⟩
  rw [outcome_ok]
  refine accepts_now fun t q' hq' => ?_
  exact ⟨⟨token, t, rfl⟩, (onward_inviteToken token).trans hq'⟩

theorem accepts_directAt (direct : Bool) (q : Held Key Read) : Accepts (windows k hours).monitor (directAt direct) q
    (outcome (fun _ q' => Onward q q') (fun _ _ => True)) := by
  unfold directAt
  cases direct with
  | false => exact .refl q
  | true => exact accepts_now fun t q' hq' => hq'

theorem accepts_assertRole (q : Held Key Read) : Accepts (windows k hours).monitor (assertRole k) q
    (outcome (fun _ q' => Onward q q') (fun _ _ => True)) := by
  unfold assertRole issue
  rw [accepts_bind, accepts_perform]
  refine ⟨trivial, fun defined _ => ?_⟩
  rw [outcome_ok, accepts_refuseIf]
  exact ⟨fun _ => trivial, fun _ => onward_findRole _ _⟩

theorem accepts_pairWrite {inviterId : ℕ} {u : User} {q : Held Key Read} (hfound : Found q u) :
    Accepts (windows k hours).monitor (pairWrite hours inviterId u) q
      (outcome (fun write q' => Chosen k q' inviterId u.mobile write.1 ∧ Kept q q') (fun _ _ => True)) := by
  unfold pairWrite
  rw [accepts_bind, issue, accepts_perform]
  refine ⟨hfound, fun found hanswer => ?_⟩
  rw [outcome_ok]
  cases found with
  | none =>
      refine accepts_mono (accepts_newInvite _) fun out q' hout => ?_
      cases out with
      | error e => exact trivial
      | ok write =>
          obtain ⟨⟨token, hwrite⟩, honward⟩ := hout
          have hnone : Onward q ((windows k hours).monitor.next q (.findInvite inviterId u) none) := by
            refine onward_next (c := .findInvite inviterId u) (fun key => rfl) fun key => ?_
            exact .inl rfl
          refine ⟨?_, (hnone.trans honward).toKept⟩
          rw [hwrite]
          trivial
  | some i =>
      have hinviter : i.inviter = inviterId := hanswer i rfl
      have hown : OwnRow k ((windows k hours).monitor.next q (.findInvite inviterId u) (some i)) inviterId u.mobile i.id := by
        refine ⟨i.inviter, ?_, fun _ => hinviter⟩
        show (if Key.row i.id = .row i.id then some (Read.row i.inviter u.mobile) else none).or _ = _
        rw [if_pos rfl]
        rfl
      have hkept : Kept q ((windows k hours).monitor.next q (.findInvite inviterId u) (some i)) :=
        ⟨fun t ht => ht, fun m => rfl, fun m => rfl⟩
      refine accepts_now fun t q' hq' => ?_
      rw [accepts_ite]
      refine ⟨fun _ => ⟨hown.onward hq', hkept.trans hq'.toKept⟩, fun _ => ?_⟩
      refine accepts_mono (accepts_renew i q') fun out q'' hout => ?_
      cases out with
      | error e => exact trivial
      | ok write =>
          obtain ⟨⟨token, t, hwrite⟩, honward⟩ := hout
          refine ⟨?_, hkept.trans (hq'.trans honward).toKept⟩
          rw [hwrite]
          exact hown.onward (hq'.trans honward)

theorem accepts_finish {startedAt inviterId : ℕ} {mobile : Mobile} {account : AccountWrite} {write : InviteWrite × String}
    {direct : Option ℕ} {q : Held Key Read} (h : Fits k hours q ⟨startedAt, inviterId, mobile, account, write.1, direct⟩) :
    Accepts (windows k hours).monitor (finish startedAt inviterId mobile account write direct) q (fun _ _ => True) := by
  unfold finish
  rw [accepts_bind, issue, accepts_perform]
  refine ⟨h, fun done _ => ?_⟩
  rw [outcome_ok, accepts_bind, accepts_orThrow]
  exact ⟨fun _ => trivial, fun id _ => trivial⟩

theorem accepts_seq {α β : Type} {p : Invites α} {f : α → Invites β} {q : Held Key Read} {P : α → Held Key Read → Prop}
    (hp : Accepts (windows k hours).monitor p q (outcome P fun _ _ => True))
    (hf : ∀ a q', P a q' → Accepts (windows k hours).monitor (f a) q' fun _ _ => True) :
    Accepts (windows k hours).monitor (p >>= f) q fun _ _ => True := by
  rw [accepts_bind]
  refine accepts_mono hp fun out q' hout => ?_
  cases out with
  | ok a => exact hf a q' hout
  | error e => exact trivial

/-- What is known of the account of a number once it was looked for. -/
structure Looked (k : Kind) (q : Held Key Read) (mobile : Mobile) (found : Option User) : Prop where
  account : ∀ u ∈ found, u.mobile = mobile ∧ q (.account u.mobile) = some (.account u.id (decide (k.role ∈ u.activeRoles)))
  /-- Nobody invited a number whose account does not have the role. -/
  rows : (∀ u ∈ found, k.role ∉ u.activeRoles) → q (.rows mobile) = some (.rows [])

theorem accepts_findUser {β : Type} {f : Option User → Invites β} (mobile : Mobile) (q : Held Key Read)
    (hf : ∀ found q', Looked k q' mobile found → Accepts (windows k hours).monitor (f found) q' fun _ _ => True) :
    Accepts (windows k hours).monitor (issue (.findUser mobile) >>= f) q fun _ _ => True := by
  rw [accepts_bind, issue, accepts_perform]
  refine ⟨trivial, fun found hanswer => hf found _ ?_⟩
  cases found with
  | none =>
      refine ⟨?_, fun _ => ?_⟩
      · intro u hu
        cases hu
      · show (if Key.rows mobile = .rows mobile then some (Read.rows []) else none).or _ = _
        rw [if_pos rfl]
        rfl
  | some u =>
      obtain rfl : u.mobile = mobile := hanswer u rfl
      refine ⟨fun v hv => ?_, fun hrole => ?_⟩
      · obtain rfl := Option.some.inj hv
        refine ⟨rfl, ?_⟩
        show (if Key.account u.mobile = .account u.mobile then _ else _ : Option Read).or _ = _
        rw [if_pos rfl]
        rfl
      · have hopens : opens k (.findUser u.mobile) (some u) (.rows u.mobile) = some (.rows []) := by
          simp [opens, hrole u rfl]
        show (opens k (.findUser u.mobile) (some u) (.rows u.mobile)).or _ = _
        rw [hopens]
        rfl

/-- No rows at all are cleared for anybody. -/
theorem cleared_nil {inviterId : ℕ} {mobile : Mobile} {q : Held Key Read} (h : q (.rows mobile) = some (.rows [])) :
    Cleared k hours q inviterId mobile [] :=
  ⟨h, fun _ hi => absurd hi List.not_mem_nil, fun _ hi => absurd hi List.not_mem_nil⟩

/-- A new account is made with a new invite. -/
theorem accepts_newAccount {startedAt inviterId : ℕ} {mobile : Mobile} {at_ : Option ℕ} {write : InviteWrite × String}
    {q : Held Key Read} (hwrite : ∃ token, write.1 = .insert token)
    (hcleared : ∃ invites, Cleared k hours q inviterId mobile invites) :
    Accepts (windows k hours).monitor (finish startedAt inviterId mobile .create write at_) q fun _ _ => True := by
  obtain ⟨token, hwrite⟩ := hwrite
  refine accepts_finish ⟨trivial, ?_, fun _ => hcleared⟩
  rw [hwrite]
  trivial

theorem accepts_inviteOne (inviterId : ℕ) (mobile : Mobile) (direct : Bool) (q : Held Key Read) :
    Accepts (windows k hours).monitor (inviteOne k hours inviterId mobile direct) q fun _ _ => True := by
  unfold inviteOne
  rw [accepts_bind, issue, accepts_perform]
  refine ⟨trivial, fun startedAt _ => accepts_findUser mobile _ fun found q hlooked => ?_⟩
  cases found with
  | none =>
      have hrows := hlooked.rows fun u hu => by cases hu
      refine accepts_seq (accepts_assertRole q) fun _ q₁ h₁ => ?_
      refine accepts_seq (accepts_newInvite q₁) fun write q₂ h₂ => ?_
      refine accepts_seq (accepts_directAt direct q₂) fun at_ q₃ h₃ => ?_
      exact accepts_newAccount h₂.1 ⟨[], (cleared_nil hrows).kept ((h₁.trans h₂.2).trans h₃).toKept⟩
  | some u =>
      obtain ⟨rfl, haccount⟩ := hlooked.account u rfl
      rw [accepts_ite]
      refine ⟨fun hnone => ?_, fun hroles => ?_⟩
      · have hrows := hlooked.rows fun v hv => by
          rw [← Option.some.inj hv, hnone]
          exact List.not_mem_nil
        refine accepts_seq (accepts_assertRole q) fun _ q₁ h₁ => ?_
        have hfound : Found q₁ u := ⟨_, (h₁.account _).trans haccount⟩
        refine accepts_seq (accepts_pairWrite hfound) fun write q₂ h₂ => ?_
        refine accepts_seq (accepts_directAt direct q₂) fun at_ q₃ h₃ => ?_
        have hkept : Kept q q₃ := (h₁.toKept.trans h₂.2).trans h₃.toKept
        refine accepts_finish ⟨⟨_, (hkept.account _).trans haccount⟩, h₂.1.onward h₃, fun _ => ?_⟩
        exact ⟨[], (cleared_nil hrows).kept hkept⟩
      · rw [accepts_bind, accepts_refuseIf]
        refine ⟨fun _ => trivial, fun hrole => ?_⟩
        rw [outcome_ok]
        refine accepts_seq (accepts_assertInvitableNow haccount) fun invites q₁ h₁ => ?_
        refine accepts_seq (accepts_pairWrite ⟨_, h₁.account⟩) fun write q₂ h₂ => ?_
        refine accepts_seq (accepts_directAt direct q₂) fun at_ q₃ h₃ => ?_
        have hkept : Kept q₁ q₃ := h₂.2.trans h₃.toKept
        refine accepts_finish ⟨⟨_, (hkept.account _).trans h₁.account, fun _ => ?_⟩, h₂.1.onward h₃, fun _ => ?_⟩
        · exact decide_eq_true (not_not.mp hrole)
        · exact ⟨invites, h₁.cleared.kept hkept⟩

theorem accepts_createCompany (parentUserId : ℕ) (mobile : Mobile) (q : Held Key Read) :
    Accepts (windows .company hours).monitor (createCompany hours parentUserId mobile) q fun _ _ => True := by
  unfold createCompany
  rw [accepts_bind, issue, accepts_perform]
  refine ⟨trivial, fun startedAt _ => accepts_findUser mobile _ fun found q hlooked => ?_⟩
  cases found with
  | none =>
      have hrows := hlooked.rows fun u hu => by cases hu
      refine accepts_seq (accepts_assertRole q) fun _ q₁ h₁ => ?_
      refine accepts_seq (accepts_newInvite q₁) fun write q₂ h₂ => ?_
      exact accepts_newAccount h₂.1 ⟨[], (cleared_nil hrows).kept (h₁.trans h₂.2).toKept⟩
  | some u =>
      obtain ⟨rfl, haccount⟩ := hlooked.account u rfl
      rw [accepts_ite]
      refine ⟨fun hnone => ?_, fun hroles => ?_⟩
      · have hrows := hlooked.rows fun v hv => by
          rw [← Option.some.inj hv, User.activeRoles, hnone]
          exact List.not_mem_nil
        refine accepts_seq (accepts_assertRole q) fun _ q₁ h₁ => ?_
        refine accepts_seq (accepts_newInvite q₁) fun write q₂ h₂ => ?_
        have hkept : Kept q q₂ := (h₁.trans h₂.2).toKept
        obtain ⟨token, hwrite⟩ := h₂.1
        refine accepts_finish ⟨⟨_, (hkept.account _).trans haccount⟩, ?_, fun _ => ?_⟩
        · rw [hwrite]
          trivial
        · exact ⟨[], (cleared_nil hrows).kept hkept⟩
      · rw [accepts_bind, accepts_refuseIf]
        refine ⟨fun _ => trivial, fun _ => ?_⟩
        rw [outcome_ok]
        refine accepts_seq (accepts_assertInvitableNow haccount) fun invites q₁ h₁ => ?_
        cases invites with
        | nil => exact absurd rfl h₁.nonempty
        | cons own rest =>
            show Accepts (windows .company hours).monitor (issue .now >>= _) q₁ _
            refine accepts_now fun now q₂ h₂ => ?_
            rw [accepts_ite]
            refine ⟨fun _ => trivial, fun _ => ?_⟩
            refine accepts_seq (accepts_renew own q₂) fun write q₃ h₃ => ?_
            obtain ⟨⟨token, t, hwrite⟩, h₃⟩ := h₃
            have honward : Onward q₁ q₃ := h₂.trans h₃
            have hown : OwnRow .company q₁ parentUserId u.mobile own.id :=
              ⟨own.inviter, h₁.own own List.mem_cons_self, fun hne => absurd rfl hne⟩
            refine accepts_finish ⟨⟨_, (honward.account _).trans h₁.account, ?_⟩, ?_, fun _ => ?_⟩
            · rintro ⟨other, hinsert⟩
              rw [hwrite] at hinsert
              cases hinsert
            · rw [hwrite]
              exact hown.onward honward
            · exact ⟨own :: rest, h₁.cleared.kept honward.toKept⟩

/-! ### The calls -/

/-- The statements a call may issue whatever it knows. -/
def Free : InviteCmd → Prop
  | .findInvites _ => False
  | .findInvite _ _ => False
  | .commit _ => False
  | _ => True

theorem issues_free (c : InviteCmd) (h : Free c) : (issue c).Issues Free := Prog.issues_perform h

theorem accepts_free {α : Type} {p : Invites α} (h : p.Issues Free) (q : Held Key Read) :
    Accepts (windows k hours).monitor p q fun _ _ => True := by
  unfold Prog.Issues at h
  induction p generalizing q with
  | ret a => exact trivial
  | throw e => exact trivial
  | call c next ih =>
      obtain ⟨hfree, hnext⟩ := h
      refine ⟨?_, fun r _ => ih r (hnext r trivial) _⟩
      cases c with
      | findInvites u => cases hfree
      | findInvite inviter u => cases hfree
      | commit w => cases hfree
      | _ => exact trivial

theorem accepts_all {α β : Type} {p : Invites α} {f : α → Invites β} {q : Held Key Read}
    (hp : Accepts (windows k hours).monitor p q fun _ _ => True)
    (hf : ∀ a q', Accepts (windows k hours).monitor (f a) q' fun _ _ => True) :
    Accepts (windows k hours).monitor (p >>= f) q fun _ _ => True := by
  rw [accepts_bind]
  refine accepts_mono hp fun out q' _ => ?_
  cases out with
  | ok a => exact hf a q'
  | error e => exact trivial

theorem accepts_caught {α β : Type} {p : Invites α} {f : Except ServiceError α → Invites β} {q : Held Key Read}
    (hp : ∀ q, Accepts (windows k hours).monitor p q fun _ _ => True)
    (hf : ∀ out q', Accepts (windows k hours).monitor (f out) q' fun _ _ => True) :
    Accepts (windows k hours).monitor (p.attempt >>= f) q fun _ _ => True := by
  rw [accepts_bind, accepts_attempt]
  exact accepts_mono (hp q) fun out q' _ => hf out q'

theorem accepts_inviteEach (companyUserId : ℕ) (direct : Bool) (seen : List Mobile) (inputs : List (List Char))
    (q : Held Key Read) : Accepts (windows .driver hours).monitor (inviteEach hours companyUserId direct seen inputs) q
      fun _ _ => True := by
  induction inputs generalizing seen q with
  | nil => exact trivial
  | cons input inputs ih =>
      rw [inviteEach]
      rw [accepts_ite]
      refine ⟨fun _ => accepts_all (ih seen q) fun _ _ => trivial, fun _ => ?_⟩
      rw [accepts_ite]
      refine ⟨fun _ => ih seen q, fun _ => ?_⟩
      refine accepts_caught (fun q => accepts_inviteOne companyUserId _ direct q) fun out q' => ?_
      cases out with
      | ok invite => exact accepts_all (ih _ q') fun _ _ => trivial
      | error e =>
          cases e with
          | conflict reason => exact accepts_all (ih _ q') fun _ _ => trivial
          | _ => exact trivial

theorem accepts_inviteAll (companyUserId : ℕ) (drivers : List (List Char)) (direct : Bool) (q : Held Key Read) :
    Accepts (windows .driver hours).monitor (inviteAll hours companyUserId drivers direct) q fun _ _ => True := by
  unfold inviteAll
  refine accepts_all (accepts_free (Prog.issues_refuseIf _ _) q) fun _ q₁ => ?_
  refine accepts_all (accepts_free (Prog.issues_refuseIf _ _) q₁) fun _ q₂ => ?_
  exact accepts_inviteEach companyUserId direct [] drivers q₂

theorem accepts_checkDriver (companyUserId : ℕ) (mobile : Mobile) (q : Held Key Read) :
    Accepts (windows .driver hours).monitor (checkDriver hours companyUserId mobile) q fun _ _ => True := by
  unfold checkDriver
  refine accepts_findUser mobile q fun found q hlooked => ?_
  cases found with
  | none => exact trivial
  | some u =>
      obtain ⟨_, haccount⟩ := hlooked.account u rfl
      rw [accepts_ite]
      refine ⟨fun _ => trivial, fun _ => ?_⟩
      rw [accepts_bind, accepts_refuseIf]
      refine ⟨fun _ => trivial, fun _ => ?_⟩
      rw [outcome_ok]
      exact accepts_seq (accepts_assertInvitableNow haccount) fun _ _ _ => trivial

theorem accepts_refusal (companyUserId : ℕ) (mobile : Mobile) (q : Held Key Read) :
    Accepts (windows .driver hours).monitor (refusal hours companyUserId mobile) q fun _ _ => True := by
  unfold refusal
  refine accepts_caught (accepts_checkDriver companyUserId mobile) fun out q' => ?_
  cases out with
  | ok _ => exact trivial
  | error e => cases e <;> exact trivial

theorem accepts_readExcel (companyUserId : ℕ) (mobiles : List Mobile) (q : Held Key Read) :
    Accepts (windows .driver hours).monitor (readExcel hours companyUserId mobiles) q fun _ _ => True := by
  unfold readExcel
  refine accepts_all ?_ fun _ q' => accepts_all (accepts_free (Prog.issues_refuseIf _ _) q') fun _ _ => trivial
  induction mobiles generalizing q with
  | nil => exact trivial
  | cons mobile mobiles ih =>
      unfold checkEach
      refine accepts_all (accepts_refusal companyUserId mobile q) fun reason q₁ => accepts_all (ih q₁) fun _ _ => ?_
      cases reason <;> exact trivial

theorem accepts_create (inviterId : ℕ) (input : List Char) (q : Held Key Read) :
    Accepts (windows k hours).monitor (create k hours inviterId input) q fun _ _ => True := by
  have hother : ∀ q, Accepts (windows k hours).monitor (do
      Prog.refuseIf (isMobile (normalizePhoneNumber input) = false)
        (.badRequest "شماره موبایل معتبر نیست؛ مثلاً 09121234567.")
      inviteOne k hours inviterId (normalizePhoneNumber input) false) q fun _ _ => True := by
    intro q
    exact accepts_all (accepts_free (Prog.issues_refuseIf _ _) q) fun _ q' => accepts_inviteOne _ _ _ q'
  cases k with
  | company =>
      unfold create
      refine accepts_all (accepts_free (issues_free (.isParent inviterId) trivial) q) fun parent q₁ => ?_
      refine accepts_all (accepts_free (Prog.issues_refuseIf _ _) q₁) fun _ q₂ => ?_
      refine accepts_all (accepts_free (Prog.issues_refuseIf _ _) q₂) fun _ q₃ => ?_
      exact accepts_createCompany _ _ q₃
  | driver => exact hother q
  | factory => exact hother q
  | broker => exact hother q

open Prog in
theorem issues_activeInvite (token : String) : (activeInvite k hours token).Issues Free := by
  unfold activeInvite
  split
  · exact issues_pure _
  · refine (issues_free (.findByToken token) trivial).bind fun found => ?_
    cases found with
    | none => exact issues_pure _
    | some i =>
        refine (issues_free .now trivial).bind fun now => ?_
        split
        · exact issues_pure _
        · split
          · exact (issues_free (.hasFeature i.inviter) trivial).bind fun _ => issues_pure _
          · exact issues_pure _

open Prog in
theorem issues_isInvited (userId : ℕ) (token : String) : (isInvited k hours userId token).Issues Free := by
  unfold isInvited
  refine (issues_activeInvite token).bind fun found => ?_
  cases found with
  | none => exact issues_pure _
  | some i =>
      dsimp only
      split
      · exact issues_pure _
      · split
        · cases i.usedAt with
          | some at_ => exact (issues_free (.setUsed i at_) trivial).bind fun _ => issues_pure _
          | none =>
              refine (issues_free .now trivial).bind fun now => ?_
              exact (issues_free (.setUsed i now) trivial).bind fun _ => issues_pure _
        · exact issues_pure _

open Prog in
theorem issues_welcome (userId : ℕ) (token : String) : (welcome k hours userId token).Issues Free := by
  unfold welcome
  refine (issues_activeInvite token).bind fun found => ?_
  cases found with
  | none => exact issues_pure _
  | some i => exact (issues_isInvited userId token).bind fun _ => issues_pure _

open Prog in
theorem issues_remove (companyUserId inviteeUserId : ℕ) : (remove k companyUserId inviteeUserId).Issues Free := by
  have hother : ∀ e : ServiceError, Prog.Issues Free (do
      let now ← issue .now
      let revoked ← issue (.revoke companyUserId inviteeUserId now)
      Prog.refuseIf (revoked = false) e) := by
    intro e
    refine (issues_free .now trivial).bind fun now => ?_
    exact (issues_free (.revoke companyUserId inviteeUserId now) trivial).bind fun revoked => issues_refuseIf _ _
  cases k with
  | factory =>
      unfold remove
      refine (issues_free (.leave companyUserId inviteeUserId) trivial).bind fun listed => ?_
      refine (issues_refuseIf _ _).bind fun _ => ?_
      refine (issues_free .now trivial).bind fun now => ?_
      exact (issues_free (.revoke companyUserId inviteeUserId now) trivial).bind fun _ => issues_pure _
  | driver => exact hother _
  | company => exact hother _
  | broker => exact hother _

open Prog in
theorem issues_expireStaleInvites : (expireStaleInvites hours).Issues Free := by
  unfold expireStaleInvites
  refine (issues_free (.findStale hours) trivial).bind fun stale => ?_
  induction stale with
  | nil => exact issues_pure _
  | cons id ids ih =>
      unfold expireEach
      exact (issues_free (.expire id) trivial).bind fun gone => ih.bind fun rest => issues_pure _

theorem accepts_done {α : Type} {p : Invites α} {q : Held Key Read}
    (h : Accepts (windows k hours).monitor p q fun _ _ => True) :
    Accepts (windows k hours).monitor (done p) q fun _ _ => True := accepts_all h fun _ _ => trivial

/-- **Every call commits only what fits what it has read.** -/
theorem accepts_call {call : Call} {p : Invites Unit} (h : call.prog k hours = some p) :
    Accepts (windows k hours).monitor p Held.none fun _ _ => True := by
  unfold Call.prog at h
  split at h
  · split at h
    · rename_i hk
      cases h
      subst hk
      exact accepts_done (accepts_inviteAll _ _ _ _)
    · cases h
  · split at h
    · rename_i hk
      cases h
      subst hk
      refine accepts_done (accepts_all (accepts_free (issues_free (.isParent _) trivial) _) fun parent q₁ => ?_)
      exact accepts_all (accepts_free (Prog.issues_refuseIf _ _) q₁) fun _ q₂ => accepts_inviteAll _ _ _ q₂
    · cases h
  · split at h
    · rename_i hk
      cases h
      subst hk
      exact accepts_done (accepts_readExcel _ _ _)
    · cases h
  · split at h
    · cases h
    · cases h
      exact accepts_done (accepts_create _ _ _)
  · split at h
    · cases h
    · cases h
      exact accepts_free (issues_remove _ _) _
  · cases h
    exact accepts_done (accepts_free (issues_welcome _ _) _)
  · cases h
    exact accepts_free (issues_free (.markInvitesUsed _) trivial) _
  · cases h
    exact accepts_done (accepts_free issues_expireStaleInvites _)

end Programs

end TransportBackend.InviteWindows
