import TransportBackend.InviteService

/-!
# A file checked before its drivers are invited

`readExcel` tells the company which numbers of its file can be invited, and why the others cannot; `inviteOne` decides
again when the invites are made.  Run by themselves at one moment, the two decide alike.

* `refusalOf` — why the tables refuse a number;
* `checkDriver_run`, `readExcel_run` — the check writes nothing, and answers by that;
* `Plain` — a program that refuses nobody;
* `check_agrees` — **the check accepts exactly the numbers that `inviteOne` does not refuse, and gives its reasons**.
-/

namespace TransportBackend.InviteChecks

open TransportBackend.AtomicProgram
open TransportBackend.AtomicProgram.Prog
open TransportBackend.InviteService
open TransportBackend.InviteStore

variable {k : Kind} {hours : ℕ} {s : Store} {chance : Chance} {α β : Type}

/-! ### Running alone -/

theorem run_issue (c : InviteCmd) (f : InviteResp c → Invites α) :
    (issue c >>= f).run (inviteExec k chance) s =
      (f (inviteExec k chance c s).1).run (inviteExec k chance) (inviteExec k chance c s).2 := rfl

theorem run_refused {p : Prop} [Decidable p] (h : p) {e : ServiceError} {f : Unit → Invites α} :
    (refuseIf p e >>= f).run (inviteExec k chance) s = (.error e, s) := by
  rw [refuseIf, if_pos h]
  rfl

theorem run_passed {p : Prop} [Decidable p] (h : ¬p) {e : ServiceError} {f : Unit → Invites α} :
    (refuseIf p e >>= f).run (inviteExec k chance) s = (f ()).run (inviteExec k chance) s := by
  rw [refuseIf, if_neg h]
  rfl

/-! ### Why a number is refused -/

/-- The reason of a refusal. -/
def conflictOf : ServiceError → Option String
  | .conflict reason => some reason
  | _ => none

/-- Why the company cannot invite the number, as the tables stand. -/
def refusalOf (hours : ℕ) (s : Store) (companyUserId : ℕ) (mobile : Mobile) : Option String :=
  match s.userOf mobile with
  | none => none
  | some u =>
      if u.activeRoles = [] then none
      else if RoleName.driver ∉ u.activeRoles then conflictOf (otherRole .driver)
      else (assertInvitable hours s.clock (s.invitesOf u.id) companyUserId u.createdAt (noun .driver)).bind conflictOf

/-- `assertInvitable` throws conflicts only. -/
theorem assertInvitable_conflict {now : ℕ} {invites : List Invite} {inviterId accountCreatedAt : ℕ} {noun : String}
    {e : ServiceError} (h : assertInvitable hours now invites inviterId accountCreatedAt noun = some e) :
    ∃ reason, e = .conflict reason := by
  unfold assertInvitable at h
  dsimp only at h
  split at h
  · cases h
  · split at h
    · exact ⟨_, (Option.some.inj h).symm⟩
    · split at h
      · cases h
      · exact ⟨_, (Option.some.inj h).symm⟩

theorem assertInvitableNow_run (k : Kind) (hours inviterId : ℕ) (u : User) (chance : Chance) (s : Store) :
    (assertInvitableNow k hours inviterId u).run (inviteExec k chance) s =
      (match assertInvitable hours s.clock (s.invitesOf u.id) inviterId u.createdAt (noun k) with
        | some e => .error e
        | none => .ok (s.invitesOf u.id), s) := by
  show (match assertInvitable hours s.clock (s.invitesOf u.id) inviterId u.createdAt (noun k) with
    | some e => (Prog.throw e : Invites (List Invite))
    | none => pure (s.invitesOf u.id)).run (inviteExec k chance) s = _
  cases assertInvitable hours s.clock (s.invitesOf u.id) inviterId u.createdAt (noun k) <;> rfl

/-! ### The check -/

theorem checkDriver_run (hours companyUserId : ℕ) (mobile : Mobile) (chance : Chance) (s : Store) :
    (checkDriver hours companyUserId mobile).run (inviteExec .driver chance) s =
      (match refusalOf hours s companyUserId mobile with
        | some reason => .error (.conflict reason)
        | none => .ok (), s) := by
  have huser : (inviteExec .driver chance (.findUser mobile) s).1 = s.userOf mobile := rfl
  unfold checkDriver refusalOf
  rw [run_issue, huser]
  cases hu : s.userOf mobile with
  | none => rfl
  | some u =>
      dsimp only
      by_cases hroles : u.activeRoles = []
      · rw [if_pos hroles, if_pos hroles]
        rfl
      · rw [if_neg hroles, if_neg hroles]
        by_cases hdriver : RoleName.driver ∉ u.activeRoles
        · rw [run_refused hdriver, if_pos hdriver]
          rfl
        · rw [run_passed hdriver, if_neg hdriver, run_bind]
          have hstore : (inviteExec .driver chance (.findUser mobile) s).2 = s := rfl
          rw [hstore, assertInvitableNow_run]
          cases hassert : assertInvitable hours s.clock (s.invitesOf u.id) companyUserId u.createdAt (noun .driver) with
          | none => rfl
          | some e =>
              obtain ⟨reason, rfl⟩ := assertInvitable_conflict hassert
              rfl

theorem refusal_run (hours companyUserId : ℕ) (mobile : Mobile) (chance : Chance) (s : Store) :
    (refusal hours companyUserId mobile).run (inviteExec .driver chance) s =
      (.ok (refusalOf hours s companyUserId mobile), s) := by
  rw [refusal, run_bind, run_attempt, checkDriver_run]
  cases refusalOf hours s companyUserId mobile <;> rfl

theorem checkEach_run (hours companyUserId : ℕ) (mobiles : List Mobile) (chance : Chance) (s : Store) :
    (checkEach hours companyUserId mobiles).run (inviteExec .driver chance) s =
      (.ok (mobiles.filter fun mobile => (refusalOf hours s companyUserId mobile).isNone,
        mobiles.filterMap fun mobile => (refusalOf hours s companyUserId mobile).map (mobile, ·)), s) := by
  induction mobiles with
  | nil => rfl
  | cons mobile mobiles ih =>
      rw [checkEach, run_bind, refusal_run]
      show (checkEach hours companyUserId mobiles >>= _).run (inviteExec .driver chance) s = _
      rw [run_bind, ih]
      cases hreason : refusalOf hours s companyUserId mobile with
      | none =>
          rw [List.filter_cons_of_pos (by simp [hreason]), List.filterMap_cons_none (by simp [hreason])]
          rfl
      | some reason =>
          have hpair : (some reason).map (mobile, ·) = some (mobile, reason) := rfl
          rw [List.filter_cons_of_neg (by simp [hreason]), List.filterMap_cons_some (by rw [hreason, hpair])]
          rfl

/-- **What the check of a file answers**; it writes nothing. -/
theorem readExcel_run (hours companyUserId : ℕ) (mobiles : List Mobile) (chance : Chance) (s : Store) :
    (readExcel hours companyUserId mobiles).run (inviteExec .driver chance) s =
      (if MAX_DRIVER_INVITES < (mobiles.filter fun mobile => (refusalOf hours s companyUserId mobile).isNone).length then
          .error (.badRequest ("در هر فایل حداکثر " ++ toString MAX_DRIVER_INVITES ++ " راننده؛ فایل را چند بخش کنید."))
        else .ok (mobiles.filter fun mobile => (refusalOf hours s companyUserId mobile).isNone,
          mobiles.filterMap fun mobile => (refusalOf hours s companyUserId mobile).map (mobile, ·)), s) := by
  rw [readExcel, run_bind, checkEach_run]
  dsimp only
  by_cases hmany : MAX_DRIVER_INVITES <
      (mobiles.filter fun mobile => (refusalOf hours s companyUserId mobile).isNone).length
  · rw [run_refused hmany, if_pos hmany]
  · rw [run_passed hmany, if_neg hmany]
    rfl

/-! ### The invite -/

/-- The program throws no conflict. -/
def Plain : Invites α → Prop
  | .ret _ => True
  | .throw e => conflictOf e = none
  | .call _ next => ∀ r, Plain (next r)

theorem plain_bind {p : Invites α} {f : α → Invites β} (hp : Plain p) (hf : ∀ a, Plain (f a)) : Plain (p >>= f) := by
  show Plain (p.bind f)
  induction p with
  | ret a => exact hf a
  | throw e => exact hp
  | call c next ih => exact fun r => ih r (hp r)

theorem plain_issue (c : InviteCmd) : Plain (issue c) := fun _ => trivial

theorem plain_refuseIf (p : Prop) [Decidable p] {e : ServiceError} (he : conflictOf e = none) :
    Plain (refuseIf p e : Invites Unit) := by
  unfold refuseIf
  split
  · exact he
  · exact trivial

theorem plain_run {p : Invites α} (hp : Plain p) (chance : Chance) (s : Store) (reason : String) :
    (p.run (inviteExec k chance) s).1 ≠ .error (.conflict reason) := by
  induction p generalizing s with
  | ret a => exact fun h => by cases h
  | throw e =>
      intro h
      obtain rfl : e = .conflict reason := Except.error.inj h
      cases hp
  | call c next ih => exact ih _ (hp _) _

theorem plain_assertRole : Plain (assertRole k) := by
  refine plain_bind (plain_issue _) fun defined => plain_refuseIf _ ?_
  cases k <;> rfl

theorem plain_newInvite : Plain newInvite := plain_bind (plain_issue _) fun _ => trivial

theorem plain_pairWrite (inviterId : ℕ) (u : User) : Plain (pairWrite hours inviterId u) := by
  refine plain_bind (plain_issue _) fun found => ?_
  cases found with
  | none => exact plain_newInvite
  | some i =>
      refine plain_bind (plain_issue _) fun now => ?_
      split
      · exact trivial
      · exact plain_bind (plain_issue _) fun token => plain_bind (plain_issue _) fun now => trivial

/-- Whatever is written, the rest of the transaction refuses nobody. -/
theorem plain_finish (startedAt inviterId : ℕ) (mobile : Mobile) (account : AccountWrite) (write : InviteWrite × String)
    (direct : Bool) : Plain (directAt direct >>= fun at_ => finish startedAt inviterId mobile account write at_) := by
  refine plain_bind ?_ fun at_ => plain_bind (plain_issue _) fun done => plain_bind ?_ fun id => trivial
  · unfold directAt
    split
    · exact plain_bind (plain_issue _) fun now => trivial
    · exact trivial
  · cases done with
    | none => exact rfl
    | some id => exact trivial

/-- **The check and the invite decide alike.**  Run by itself at any moment, whatever the tables, the check of a file
answers the numbers nobody refuses and the others with the reason, and writes nothing; and `inviteOne`, invited or
registered directly, refuses a number with a conflict exactly when the check does, for the same reason. -/
theorem check_agrees (hours : ℕ) (chance : Chance) (s : Store) (companyUserId : ℕ) :
    (∀ mobiles, (readExcel hours companyUserId mobiles).run (inviteExec .driver chance) s =
      (if MAX_DRIVER_INVITES < (mobiles.filter fun mobile => (refusalOf hours s companyUserId mobile).isNone).length then
          .error (.badRequest ("در هر فایل حداکثر " ++ toString MAX_DRIVER_INVITES ++ " راننده؛ فایل را چند بخش کنید."))
        else .ok (mobiles.filter fun mobile => (refusalOf hours s companyUserId mobile).isNone,
          mobiles.filterMap fun mobile => (refusalOf hours s companyUserId mobile).map (mobile, ·)), s)) ∧
    ∀ mobile direct reason, refusalOf hours s companyUserId mobile = some reason ↔
      ((inviteOne .driver hours companyUserId mobile direct).run (inviteExec .driver chance) s).1 =
        .error (.conflict reason) := by
  refine ⟨fun mobiles => readExcel_run hours companyUserId mobiles chance s, fun mobile direct reason => ?_⟩
  have huser : (inviteExec .driver chance (.findUser mobile) s).1 = s.userOf mobile := rfl
  have hstore : (inviteExec .driver chance (.findUser mobile) s).2 = s := rfl
  have hbegin : (inviteExec .driver chance .begin s).2 = s := rfl
  unfold inviteOne refusalOf
  rw [run_issue, hbegin, run_issue, huser, hstore]
  cases hu : s.userOf mobile with
  | none =>
      refine iff_of_false (fun h => by cases h) (plain_run (plain_bind plain_assertRole fun _ => ?_) chance s reason)
      exact plain_bind plain_newInvite fun write => plain_finish _ _ _ _ _ direct
  | some u =>
      dsimp only
      by_cases hroles : u.activeRoles = []
      · rw [if_pos hroles, if_pos hroles]
        refine iff_of_false (fun h => by cases h) (plain_run (plain_bind plain_assertRole fun _ => ?_) chance s reason)
        exact plain_bind (plain_pairWrite _ _) fun write => plain_finish _ _ _ _ _ direct
      · rw [if_neg hroles, if_neg hroles]
        by_cases hdriver : Kind.driver.role ∉ u.activeRoles
        · rw [run_refused hdriver, if_pos (show RoleName.driver ∉ u.activeRoles from hdriver)]
          exact ⟨fun h => congrArg Except.error (congrArg ServiceError.conflict (Option.some.inj h)),
            fun h => congrArg conflictOf (Except.error.inj h)⟩
        · rw [run_passed hdriver, if_neg (show ¬RoleName.driver ∉ u.activeRoles from hdriver), run_bind,
            assertInvitableNow_run]
          cases hassert : assertInvitable hours s.clock (s.invitesOf u.id) companyUserId u.createdAt (noun .driver) with
          | none =>
              refine iff_of_false (fun h => by cases h) (plain_run (plain_bind (plain_pairWrite _ _) ?_) chance s reason)
              exact fun write => plain_finish _ _ _ _ _ direct
          | some e =>
              obtain ⟨given, rfl⟩ := assertInvitable_conflict hassert
              exact ⟨fun h => congrArg Except.error (congrArg ServiceError.conflict (Option.some.inj h)),
                fun h => congrArg conflictOf (Except.error.inj h)⟩

end TransportBackend.InviteChecks
