import TransportBackend.InviteStore

/-!
# Invites: the services

`DriverInviteService`, `FactoryService.createInvite`, `BrokerInviteService` and `CompanyInviteService`, as far as they
read and write invites and the accounts these make, with `markInvitesUsed` and `expireStaleInvites`.

* `inviteOne` — a driver, a factory or a broker invited: one program, each kind with its own texts;
* `createCompany` — a transport company, whose one row moves from parent to parent;
* `inviteAll`, `refusal`, `readExcel` — a batch of drivers, and the check of a file before it;
* `isInvited`, `markInvitesUsed`, `remove`, `expireStaleInvites` — the rest of an invite's life;
* `machine` — any number of calls of one kind, interleaved.
-/

namespace TransportBackend.InviteService

open TransportBackend.AtomicProgram
open TransportBackend.InterleavedRun
open TransportBackend.InviteStore
open TransportBackend.KeyedTable

/-- A method of the services. -/
abbrev Invites (α : Type) : Type := Prog InviteResp ServiceError α

/-- One statement, awaited. -/
def issue (c : InviteCmd) : Invites (InviteResp c) := Prog.perform c

/-! ### Texts -/

def noun : Kind → String
  | .driver => "راننده"
  | .factory => "کارخانه"
  | .company => "شرکت"
  | .broker => "واسط"

def otherRole : Kind → ServiceError
  | .driver => .conflict "این شماره حساب شرکت حمل‌ونقل یا شرکت / کارخانه است."
  | .factory => .conflict "این شماره حساب راننده یا شرکت حمل‌ونقل است و نمی‌شود آن را کارخانه دعوت کرد."
  | .company => .conflict "این شماره از قبل در سامانه حساب دارد و نمی‌شود آن را دعوت کرد."
  | .broker => .conflict "این شماره حساب راننده، شرکت یا کارخانه است و نمی‌شود آن را واسط دعوت کرد."

def roleMissing : Kind → ServiceError
  | .driver => .badRequest "نقش راننده در سامانه تعریف نشده است."
  | .factory => .badRequest "نقش کارخانه در سامانه تعریف نشده است."
  | .company => .badRequest "نقش شرکت در سامانه تعریف نشده است."
  | .broker => .badRequest "نقش واسط در سامانه تعریف نشده است."

def notListed : Kind → ServiceError
  | .driver => .notFound "این راننده در دعوت‌های شما نیست."
  | .factory => .notFound "این کارخانه در لیست شما نیست."
  | _ => .notFound "این واسط در لیست شما نیست."

def MAX_DRIVER_INVITES : ℕ := 20

/-! ### Inviting -/

/-- An invite as the inviter gets it. -/
structure Invited where
  created : Bool
  inviteeUserId : ℕ
  token : String
  deriving DecidableEq, Repr

section Inviting

variable (k : Kind) (hours : ℕ)

/-- The role of a new account is defined. -/
def assertRole : Invites Unit := do
  let defined ← issue (.findRole k.role)
  .refuseIf (defined = false) (roleMissing k)

/-- `assertInvitable` over the rows of an account: the rows it read. -/
def assertInvitableNow (inviterId : ℕ) (u : User) : Invites (List Invite) := do
  let invites ← issue (.findInvites u)
  let now ← issue .now
  match assertInvitable hours now invites inviterId u.createdAt (noun k) with
  | some e => .throw e
  | none => pure invites

/-- A row again for a new invite. -/
def renew (i : Invite) : Invites (InviteWrite × String) := do
  let token ← issue .inviteToken
  let now ← issue .now
  pure (.renew i.id token now, token)

def newInvite : Invites (InviteWrite × String) := do
  let token ← issue .inviteToken
  pure (.insert token, token)

/-- The pair's one row: as it is while it waits, else again, else a new one. -/
def pairWrite (inviterId : ℕ) (u : User) : Invites (InviteWrite × String) := do
  match ← issue (.findInvite inviterId u) with
  | none => newInvite
  | some i => do
      let now ← issue .now
      if isInviteWaiting hours now i then pure (.keep i.id, i.token) else renew i

/-- The transaction commits. -/
def finish (startedAt inviterId : ℕ) (mobile : Mobile) (account : AccountWrite) (write : InviteWrite × String)
    (direct : Option ℕ) : Invites Invited := do
  let done ← issue (.commit ⟨startedAt, inviterId, mobile, account, write.1, direct⟩)
  let id ← .orThrow .queryFailed done
  pure ⟨match account with | .keep _ _ => false | _ => true, id, write.2⟩

/-- The time of a direct registration. -/
def directAt (direct : Bool) : Invites (Option ℕ) := do
  if direct then
    let now ← issue .now
    pure (some now)
  else pure none

/-- The transaction that invites a driver, a factory or a broker. -/
def inviteOne (inviterId : ℕ) (mobile : Mobile) (direct : Bool) : Invites Invited := do
  let startedAt ← issue .begin
  match ← issue (.findUser mobile) with
  | none => do
      assertRole k
      -- a new account has no invite yet
      let write ← newInvite
      let at_ ← directAt direct
      finish startedAt inviterId mobile .create write at_
  | some u =>
      if u.activeRoles = [] then do
        assertRole k
        let write ← pairWrite hours inviterId u
        let at_ ← directAt direct
        finish startedAt inviterId mobile (.giveRole u.id) write at_
      else do
        .refuseIf (k.role ∉ u.activeRoles) (otherRole k)
        let _ ← assertInvitableNow k hours inviterId u
        let write ← pairWrite hours inviterId u
        let at_ ← directAt direct
        -- the company vouches for a factory or a broker that is not checked yet
        let approve := (k = .factory || k = .broker) && u.verificationStatus ≠ .approved
        finish startedAt inviterId mobile (.keep u.id approve) write at_

/-- The transaction that invites a transport company. -/
def createCompany (parentUserId : ℕ) (mobile : Mobile) : Invites Invited := do
  let startedAt ← issue .begin
  match ← issue (.findUser mobile) with
  | none => do
      assertRole .company
      let write ← newInvite
      finish startedAt parentUserId mobile .create write none
  | some u =>
      if u.userRoles = [] then do
        assertRole .company
        let write ← newInvite
        finish startedAt parentUserId mobile (.giveRole u.id) write none
      else do
        .refuseIf (RoleName.company ∉ u.userRoles.map UserRole.name) (otherRole .company)
        match (← assertInvitableNow .company hours parentUserId u).head? with
        | none => do
            let write ← newInvite
            finish startedAt parentUserId mobile (.keep u.id false) write none
        | some own => do
            let now ← issue .now
            if isInviteWaiting hours now own && own.inviter = parentUserId then pure ⟨false, u.id, own.token⟩
            else do
              let write ← renew own
              finish startedAt parentUserId mobile (.keep u.id false) write none

/-- `createInvite` of a factory, `create` of a broker or a company. -/
def create (inviterId : ℕ) (input : List Char) : Invites Invited := do
  let mobile := normalizePhoneNumber input
  match k with
  | .company => do
      let parent ← issue (.isParent inviterId)
      .refuseIf (parent = false) (.forbidden "فقط شرکت مادر می‌تواند شرکت دعوت کند.")
      .refuseIf (isMobile mobile = false) (.badRequest "شماره موبایل معتبر نیست؛ مثلاً 09121234567.")
      createCompany hours inviterId mobile
  | _ => do
      .refuseIf (isMobile mobile = false) (.badRequest "شماره موبایل معتبر نیست؛ مثلاً 09121234567.")
      inviteOne k hours inviterId mobile false

/-! ### Drivers -/

inductive Outcome where
  | invited (mobile : Mobile) (invite : Invited)
  | refused (mobile : List Char) (reason : String)
  deriving DecidableEq, Repr

/-- The numbers of a batch one after another; `seen` are those already invited. -/
def inviteEach (companyUserId : ℕ) (direct : Bool) : List Mobile → List (List Char) → Invites (List Outcome)
  | _, [] => pure []
  | seen, input :: inputs => do
      let mobile := normalizePhoneNumber input
      if isMobile mobile = false then do
        let rest ← inviteEach companyUserId direct seen inputs
        pure (.refused input "شماره موبایل معتبر نیست." :: rest)
      else if seen.contains mobile then inviteEach companyUserId direct seen inputs
      else
        match ← (inviteOne .driver hours companyUserId mobile direct).attempt with
        | .ok invite => do
            let rest ← inviteEach companyUserId direct (mobile :: seen) inputs
            pure (.invited mobile invite :: rest)
        | .error (.conflict reason) => do
            let rest ← inviteEach companyUserId direct (mobile :: seen) inputs
            pure (.refused mobile reason :: rest)
        | .error e => .throw e

def inviteAll (companyUserId : ℕ) (drivers : List (List Char)) (direct : Bool) : Invites (List Outcome) := do
  .refuseIf (drivers = []) (.badRequest "دست‌کم یک شماره وارد کنید.")
  .refuseIf (MAX_DRIVER_INVITES < drivers.length)
    (.badRequest ("حداکثر " ++ toString MAX_DRIVER_INVITES ++ " راننده در هر بار."))
  inviteEach hours companyUserId direct [] drivers

def register (companyUserId : ℕ) (drivers : List (List Char)) : Invites (List Outcome) := do
  let parent ← issue (.isParent companyUserId)
  .refuseIf (parent = false) (.forbidden "فقط شرکت مادر راننده را مستقیم ثبت می‌کند.")
  inviteAll hours companyUserId drivers true

/-- The checks of `inviteOne` on a driver's number, without the invite. -/
def checkDriver (companyUserId : ℕ) (mobile : Mobile) : Invites Unit := do
  match ← issue (.findUser mobile) with
  | none => pure ()
  | some u =>
      if u.activeRoles = [] then pure ()
      else do
        .refuseIf (RoleName.driver ∉ u.activeRoles) (otherRole .driver)
        let _ ← assertInvitableNow .driver hours companyUserId u
        pure ()

/-- `refusal`: why the company cannot invite this number now. -/
def refusal (companyUserId : ℕ) (mobile : Mobile) : Invites (Option String) := do
  match ← (checkDriver hours companyUserId mobile).attempt with
  | .ok _ => pure none
  | .error (.conflict message) => pure (some message)
  | .error e => .throw e

/-- The loop of `readExcel`: the drivers to invite, and the refused with the reason. -/
def checkEach (companyUserId : ℕ) : List Mobile → Invites (List Mobile × List (Mobile × String))
  | [] => pure ([], [])
  | mobile :: mobiles => do
      let reason ← refusal hours companyUserId mobile
      let rest ← checkEach companyUserId mobiles
      match reason with
      | some reason => pure (rest.1, (mobile, reason) :: rest.2)
      | none => pure (mobile :: rest.1, rest.2)

/-- `readExcel`, behind the reader of the file. -/
def readExcel (companyUserId : ℕ) (mobiles : List Mobile) : Invites (List Mobile × List (Mobile × String)) := do
  let result ← checkEach hours companyUserId mobiles
  .refuseIf (MAX_DRIVER_INVITES < result.1.length)
    (.badRequest ("در هر فایل حداکثر " ++ toString MAX_DRIVER_INVITES ++ " راننده؛ فایل را چند بخش کنید."))
  pure result

/-! ### The life of an invite -/

/-- `/^[A-Za-z0-9_-]{16,64}$/`. -/
def isToken (token : String) : Bool :=
  16 ≤ token.toList.length && token.toList.length ≤ 64 &&
    token.toList.all fun c => c.isAlphanum || c = '_' || c = '-'

def activeInvite (token : String) : Invites (Option Invite) := do
  if isToken token = false then pure none
  else
    match ← issue (.findByToken token) with
    | none => pure none
    | some i => do
        let now ← issue .now
        if isInviteExpired hours now i then pure none
        else if k = .driver then
          let drivers ← issue (.hasFeature i.inviter)
          pure (if drivers then some i else none)
        else pure (some i)

/-- `isInvited`, `isMember`: the account that came in with the link is the invited one. -/
def isInvited (userId : ℕ) (token : String) : Invites Bool := do
  match ← activeInvite k hours token with
  | none => pure false
  | some i =>
      if i.invitee ≠ userId then pure false
      else if i.usedAt = none ∨ (k = .driver ∧ i.usedByLink = false) then do
        match i.usedAt with
        | some at_ => issue (.setUsed i at_)
        | none => do
            let now ← issue .now
            issue (.setUsed i now)
        pure true
      else pure true

inductive Welcome where
  | invalid | otherNumber | joined (inviter : ℕ)
  deriving DecidableEq, Repr

def welcome (userId : ℕ) (token : String) : Invites Welcome := do
  match ← activeInvite k hours token with
  | none => pure .invalid
  | some i => do
      let invited ← isInvited k hours userId token
      pure (if invited then .joined i.inviter else .otherNumber)

/-- `remove`, `removeFactory`. -/
def remove (companyUserId inviteeUserId : ℕ) : Invites Unit := do
  match k with
  | .factory => do
      let listed ← issue (.leave companyUserId inviteeUserId)
      .refuseIf (listed = false) (notListed .factory)
      let now ← issue .now
      let _ ← issue (.revoke companyUserId inviteeUserId now)
      pure ()
  | _ => do
      let now ← issue .now
      let revoked ← issue (.revoke companyUserId inviteeUserId now)
      .refuseIf (revoked = false) (notListed k)

/-- A sign-in of the number. -/
def markInvitesUsed (mobile : Mobile) : Invites Unit := issue (.markInvitesUsed mobile)

/-- The loop of a sweep: how many expired. -/
def expireEach : List ℕ → Invites ℕ
  | [] => pure 0
  | id :: ids => do
      let gone ← issue (.expire id)
      let rest ← expireEach ids
      pure (if gone then rest + 1 else rest)

def expireStaleInvites : Invites ℕ := do
  let stale ← issue (.findStale hours)
  expireEach stale

end Inviting

/-! ### Calls side by side -/

inductive Call where
  | invite (companyUserId : ℕ) (drivers : List (List Char))
  | register (companyUserId : ℕ) (drivers : List (List Char))
  | readExcel (companyUserId : ℕ) (mobiles : List Mobile)
  | create (inviterId : ℕ) (mobile : List Char)
  | remove (companyUserId inviteeUserId : ℕ)
  | welcome (userId : ℕ) (token : String)
  | signIn (mobile : Mobile)
  | sweep

/-- The program without its answer. -/
def done {α : Type} (p : Invites α) : Invites Unit := do
  let _ ← p
  pure ()

/-- The calls a kind of invite has. -/
def Call.prog (k : Kind) (hours : ℕ) : Call → Option (Invites Unit)
  | .invite companyUserId drivers => if k = .driver then some (done (inviteAll hours companyUserId drivers false)) else none
  | .register companyUserId drivers => if k = .driver then some (done (InviteService.register hours companyUserId drivers)) else none
  | .readExcel companyUserId mobiles => if k = .driver then some (done (InviteService.readExcel hours companyUserId mobiles)) else none
  | .create inviterId mobile => if k = .driver then none else some (done (InviteService.create k hours inviterId mobile))
  | .remove companyUserId inviteeUserId => if k = .company then none else some (InviteService.remove k companyUserId inviteeUserId)
  | .welcome userId token => some (done (InviteService.welcome k hours userId token))
  | .signIn mobile => some (markInvitesUsed mobile)
  | .sweep => some (done (expireStaleInvites hours))

/-- What happens outside of the services: time passes, and accounts are made, get roles and are linked. -/
inductive Outside where
  | tick (ms : ℕ)
  | signUp (mobile : Mobile) (roles : List RoleName)
  | giveRole (userId : ℕ) (role : RoleName)
  | link (userId : ℕ)

def Outside.apply : Outside → Store → Store
  | .tick ms, s => { s with clock := s.clock + ms }
  | .signUp mobile roles, s =>
      if (s.userOf mobile).isSome then s
      else { s with
        nextId := s.nextId + 1
        users := s.users.put ⟨s.nextId, mobile, s.clock, roles.map (⟨·, true⟩), .approved, false⟩ }
  | .giveRole userId role, s =>
      match s.users.get userId with
      | some u => { s with users := s.users.put { u with userRoles := u.userRoles ++ [⟨role, true⟩] } }
      | none => s
  | .link userId, s =>
      match s.users.get userId with
      | some u => { s with users := s.users.put { u with linked := true } }
      | none => s

/-- Any number of calls on the tables of one kind. -/
def machine (k : Kind) (hours : ℕ) : Machine InviteResp ServiceError Store where
  Choice := Chance
  Outside := Outside
  Call := Call
  exec chance c s := some (inviteExec k chance c s)
  outside o s := some (o.apply s)
  begin call s := (call.prog k hours).map (·, s)

end TransportBackend.InviteService
