import TransportBackend.InterleavedRun
import TransportBackend.KeyedTable
import TransportBackend.PriceTexts

/-!
# Invites: the rules and the tables

A company invites a driver, a factory or a broker by its number, and the parent company a transport company.  The
account is made at once; the invite waits a day for the number to come in.

* `isInviteExpired`, `isInviteWaiting`, `assertInvitable`, `renewedInvite` — `inviteRules.ts`;
* `Store` — the accounts and the invites of one kind;
* `InviteCmd`, `inviteExec` — the statements of the services, of `markInvitesUsed` and of `expireStaleInvites`.

What a transaction writes is one statement, `commit`: nobody sees any of it before.  A sweep's transaction on one
invite is one statement as well; its three updates hold the invite's row.  An inviter's own account is never deleted
here, and what an invite ties besides the list of factories, the names and the SMS are left out.
-/

namespace TransportBackend.InviteStore

open TransportBackend.KeyedTable
open TransportBackend.PriceTexts
open TransportBackend.TripFareRules (isJsSpace)

/-! ### Numbers -/

abbrev Mobile : Type := List Char

/-- `/^(?:\+98|0098|98)(?=9)/` read as `0`. -/
def countryCode (phone : Mobile) : Mobile :=
  match ["+98".toList, "0098".toList, "98".toList].find? fun code => (code ++ ['9']).isPrefixOf phone with
  | some code => '0' :: phone.drop code.length
  | none => phone

/-- `normalizePhoneNumber`. -/
def normalizePhoneNumber (value : List Char) : Mobile :=
  countryCode ((latin (trim value)).filter fun c => !(isJsSpace c || c = '(' || c = ')' || c = '-'))

/-- `/^09[0-9]{9}$/`. -/
def isMobile (phone : Mobile) : Bool :=
  "09".toList.isPrefixOf phone && phone.length = 11 && phone.all Char.isDigit

/-! ### Rows -/

/-- The kinds of invites. -/
inductive Kind where
  | driver | factory | company | broker
  deriving DecidableEq, Repr

inductive RoleName where
  | driver | factory | company | broker
  | other (name : String)
  deriving DecidableEq, Repr

/-- The role of the account an invite makes. -/
def Kind.role : Kind → RoleName
  | .driver => .driver
  | .factory => .factory
  | .company => .company
  | .broker => .broker

structure UserRole where
  name : RoleName
  active : Bool
  deriving DecidableEq, Repr

inductive VerificationStatus where
  | none | pending | approved | rejected
  deriving DecidableEq, Repr

structure User where
  id : ℕ
  mobile : Mobile
  createdAt : ℕ
  userRoles : List UserRole
  verificationStatus : VerificationStatus
  /-- A messenger or WhatsApp is linked to the account. -/
  linked : Bool
  deriving DecidableEq, Repr

def User.activeRoles (u : User) : List RoleName := (u.userRoles.filter UserRole.active).map UserRole.name

/-- An invite of any kind. -/
structure Invite where
  id : ℕ
  inviter : ℕ
  invitee : ℕ
  mobile : Mobile
  token : String
  createdAt : ℕ
  usedAt : Option ℕ
  revokedAt : Option ℕ
  usedByLink : Bool
  direct : Bool
  deriving DecidableEq, Repr

/-- The unique index: one row a company invited, one row a pair of the other kinds. -/
def Kind.unique (k : Kind) (i : Invite) : ℕ × ℕ := if k = .company then (0, i.invitee) else (i.inviter, i.invitee)

/-- The tables and the time. -/
structure Store where
  clock : ℕ
  /-- The next identifier; none is given twice. -/
  nextId : ℕ
  /-- The roles that are defined and active. -/
  roles : List RoleName
  parents : List ℕ
  users : Table User.id
  invites : Table Invite.id
  /-- `FactoryCompany`: the factories of a company. -/
  factories : List (ℕ × ℕ)

/-! ### The rules -/

section Rules

variable (hours now : ℕ)

def hourMs : ℕ := 60 * 60000

/-- An invite nobody used within its time. -/
def isInviteExpired (i : Invite) : Bool := i.usedAt.isNone && i.createdAt + hours * hourMs < now

/-- When an invite still waiting is over. -/
def inviteExpiresAt (i : Invite) : Option ℕ := if i.usedAt.isSome then none else some (i.createdAt + hours * hourMs)

def isInviteWaiting (i : Invite) : Bool := i.revokedAt.isNone && i.usedAt.isNone && !isInviteExpired hours now i

inductive ServiceError where
  | badRequest (message : String)
  | conflict (message : String)
  | forbidden (message : String)
  | notFound (message : String)
  | queryFailed
  deriving DecidableEq, Repr

/-- The invite and the account were made within a minute. -/
def madeWith (accountCreatedAt : ℕ) (i : Invite) : Bool :=
  decide (((i.createdAt : ℤ) - accountCreatedAt).natAbs < 60000)

/-- `assertInvitable`: what it throws, if anything. -/
def assertInvitable (invites : List Invite) (inviterId accountCreatedAt : ℕ) (noun : String) : Option ServiceError :=
  let waiting := invites.filter (isInviteWaiting hours now)
  if waiting.any fun i => i.inviter = inviterId then none
  else if waiting ≠ [] then
    some (.conflict ("این " ++ noun ++ " را شرکت دیگری دعوت کرده است؛ اگر تا " ++ toString hours ++
      " ساعت وارد نشود، می‌توانید دعوتش کنید."))
  else if invites.any (madeWith accountCreatedAt) && !invites.any fun i => i.usedAt.isSome then none
  else some (.conflict ("این " ++ noun ++ " خودش در ترابوت است و دعوت لازم ندارد."))

/-- `renewedInvite`, in the row it renews. -/
def Invite.renewed (i : Invite) (token : String) : Invite :=
  { i with token := token, createdAt := now, usedAt := none, revokedAt := none }

end Rules

/-! ### Statements -/

/-- What a transaction writes of the account. -/
inductive AccountWrite where
  /-- Nothing: it has its role. -/
  | keep (id : ℕ) (approve : Bool)
  /-- An account without a role gets one. -/
  | giveRole (id : ℕ)
  | create
  deriving DecidableEq, Repr

/-- What a transaction writes of the invite. -/
inductive InviteWrite where
  | keep (id : ℕ)
  | renew (id : ℕ) (token : String) (createdAt : ℕ)
  | insert (token : String)
  deriving DecidableEq, Repr

/-- An inviting transaction, when it commits. -/
structure Commit where
  /-- `now()` in it: when it began. -/
  startedAt : ℕ
  inviter : ℕ
  mobile : Mobile
  account : AccountWrite
  invite : InviteWrite
  /-- Registered directly, at this time. -/
  direct : Option ℕ
  deriving DecidableEq, Repr

inductive InviteCmd where
  | now
  | begin
  | inviteToken
  | isParent (userId : ℕ)
  | findRole (role : RoleName)
  | findUser (mobile : Mobile)
  | findInvites (user : User)
  | findInvite (inviter : ℕ) (user : User)
  | findByToken (token : String)
  | hasFeature (companyUserId : ℕ)
  | commit (w : Commit)
  | setUsed (invite : Invite) (usedAt : ℕ)
  | markInvitesUsed (mobile : Mobile)
  | leave (inviter invitee : ℕ)
  | revoke (inviter invitee now : ℕ)
  | findStale (hours : ℕ)
  | expire (id : ℕ)
  deriving DecidableEq, Repr

/-- What each statement answers. -/
@[reducible] def InviteResp : InviteCmd → Type
  | .now => ℕ
  | .begin => ℕ
  | .inviteToken => String
  | .isParent _ => Bool
  | .findRole _ => Bool
  | .findUser _ => Option User
  | .findInvites _ => List Invite
  | .findInvite _ _ => Option Invite
  | .findByToken _ => Option Invite
  | .hasFeature _ => Bool
  | .commit _ => Option ℕ
  | .setUsed _ _ => Unit
  | .markInvitesUsed _ => Unit
  | .leave _ _ => Bool
  | .revoke _ _ _ => Bool
  | .findStale _ => List ℕ
  | .expire _ => Bool

namespace Store

variable (k : Kind) (s : Store)

def userOf (mobile : Mobile) : Option User := s.users.rows.find? fun u => u.mobile = mobile

def invitesOf (invitee : ℕ) : List Invite := s.invites.rows.filter fun i => i.invitee = invitee

def inviteOf (inviter invitee : ℕ) : Option Invite :=
  s.invites.rows.find? fun i => i.inviter = inviter && i.invitee = invitee

/-- A role given to an account; a new driver has its profile to fill in. -/
def given (u : User) : User :=
  { u with
    userRoles := u.userRoles ++ [⟨k.role, true⟩]
    verificationStatus := if k = .driver then .none else u.verificationStatus }

/-- The account a transaction writes, and the accounts with it; none when the database refuses. -/
def writeAccount (w : Commit) : Option (ℕ × Store) :=
  match w.account with
  | .keep id approve =>
      match s.users.get id with
      | some u =>
          if approve then some (id, { s with users := s.users.put { u with verificationStatus := .approved } })
          else some (id, s)
      | none => some (id, s)
  | .giveRole id => (s.users.get id).map fun u => (id, { s with users := s.users.put (given k u) })
  | .create =>
      if (s.userOf w.mobile).isSome then none
      else some (s.nextId,
        { s with
          nextId := s.nextId + 1
          users := s.users.put (given k ⟨s.nextId, w.mobile, w.startedAt, [], .approved, false⟩) })

/-- The token stands in no other row. -/
def tokenFree (token : String) (id : ℕ) : Bool := s.invites.rows.all fun i => i.token ≠ token || i.id = id

/-- The row of a renewed invite; a transport company's one row goes to the parent that renews it. -/
def renewedRow (w : Commit) (i : Invite) (token : String) (createdAt : ℕ) : Invite :=
  { i.renewed createdAt token with
    inviter := if k = .company then w.inviter else i.inviter
    usedByLink := i.usedByLink && k ≠ .driver }

def insertedRow (w : Commit) (id invitee : ℕ) (token : String) : Invite :=
  { id := id, inviter := w.inviter, invitee := invitee, mobile := w.mobile, token := token, createdAt := w.startedAt
    usedAt := none, revokedAt := none, usedByLink := false, direct := false }

/-- The invite a transaction writes for an account. -/
def writeInvite (w : Commit) (invitee : ℕ) : Option (ℕ × Store) :=
  match w.invite with
  | .keep id => some (id, s)
  | .renew id token createdAt =>
      match s.invites.get id with
      | none => some (id, s)
      | some i =>
          if s.tokenFree token id then
            some (id, { s with invites := s.invites.put (renewedRow k w i token createdAt) })
          else none
  | .insert token =>
      let row := insertedRow w s.nextId invitee token
      if (s.users.get invitee).isSome && s.tokenFree token s.nextId &&
          s.invites.rows.all fun i => k.unique i ≠ k.unique row then
        some (s.nextId, { s with nextId := s.nextId + 1, invites := s.invites.put row })
      else none

/-- A driver registered directly is in at once. -/
def writeDirect (w : Commit) (id : ℕ) : Store :=
  match w.direct, s.invites.get id with
  | some now, some i => { s with invites := s.invites.put { i with usedAt := some now, direct := true, revokedAt := none } }
  | _, _ => s

/-- The company's list of factories, with an invited one. -/
def writeFactory (w : Commit) (invitee : ℕ) : Store :=
  if k = .factory && !s.factories.contains (w.inviter, invitee) then
    { s with factories := (w.inviter, invitee) :: s.factories }
  else s

def commit (w : Commit) : Option ℕ × Store :=
  match s.writeAccount k w with
  | none => (none, s)
  | some (invitee, s₁) =>
      match (s₁.writeFactory k w invitee).writeInvite k w invitee with
      | none => (none, s)
      | some (id, s₂) => (some invitee, s₂.writeDirect w id)

/-- The link of an invite was opened; its row keeps its number. -/
def setUsed (i : Invite) (usedAt : ℕ) : Store :=
  match s.invites.get i.id with
  | some row =>
      if row.mobile = i.mobile then
        { s with invites := s.invites.put { row with usedAt := some usedAt, usedByLink := row.usedByLink || k = .driver } }
      else s
  | none => s

/-- The number came in. -/
def markUsed (mobile : Mobile) (i : Invite) : Invite :=
  if i.mobile = mobile ∧ i.usedAt = none then { i with usedAt := some s.clock } else i

theorem markUsed_id (mobile : Mobile) (i : Invite) : (s.markUsed mobile i).id = i.id := by
  unfold markUsed
  split <;> rfl

def markInvitesUsed (mobile : Mobile) : Store := { s with invites := s.invites.map (s.markUsed mobile) (s.markUsed_id mobile) }

/-- A conditional update of `revokedAt`: whether a row was updated. -/
def revoke (inviter invitee now : ℕ) : Bool × Store :=
  match s.inviteOf inviter invitee with
  | some i =>
      if i.revokedAt = none then (true, { s with invites := s.invites.put { i with revokedAt := some now } })
      else (false, s)
  | none => (false, s)

def stale (hours : ℕ) : List ℕ :=
  (s.invites.rows.filter fun i => i.usedAt.isNone && i.revokedAt.isNone && i.createdAt + hours * hourMs < s.clock).map
    Invite.id

/-- The account goes with the swept invite that made it: nobody came in and no other invite waits. -/
def unvisited (u : User) (made : Invite) : Bool :=
  decide (u.createdAt ≤ made.createdAt + 60000 ∧ made.createdAt ≤ u.createdAt + 60000) &&
    (s.invitesOf u.id).all (fun i => i.usedAt.isNone && i.revokedAt.isSome) && !u.linked

/-- An account and all that refers to it. -/
def deleteUser (id : ℕ) : Store :=
  { s with
    users := s.users.erase id
    invites := ⟨s.invites.rows.filter fun i => i.invitee ≠ id, s.invites.nodup.sublist (List.filter_sublist.map _)⟩
    factories := s.factories.filter fun f => f.2 ≠ id }

/-- A swept invite is revoked, and what it tied is undone. -/
def revokeStale (i : Invite) : Store :=
  { s with
    invites := s.invites.put { i with revokedAt := some s.clock }
    factories := if k = .factory then s.factories.erase (i.inviter, i.invitee) else s.factories }

/-- The account of a swept invite. -/
def deleteUnvisited (made : Invite) : Store :=
  match s.users.get made.invitee with
  | some u => if s.unvisited u made then s.deleteUser u.id else s
  | none => s

/-- One transaction of a sweep. -/
def expire (id : ℕ) : Bool × Store :=
  match s.invites.get id with
  | some i => if i.usedAt = none ∧ i.revokedAt = none then (true, (s.revokeStale k i).deleteUnvisited i) else (false, s)
  | none => (false, s)

end Store

/-- What the tables do not decide: a random token, and whether a company has its menu of drivers. -/
structure Chance where
  token : String
  hasFeature : Bool
  deriving DecidableEq, Repr

/-- What a statement answers and what it writes. -/
def inviteExec (k : Kind) (chance : Chance) : (c : InviteCmd) → Store → InviteResp c × Store
  | .now, s => (s.clock, s)
  | .begin, s => (s.clock, s)
  | .inviteToken, s => (chance.token, s)
  | .isParent userId, s => (s.parents.contains userId, s)
  | .findRole role, s => (s.roles.contains role, s)
  | .findUser mobile, s => (s.userOf mobile, s)
  | .findInvites user, s => (s.invitesOf user.id, s)
  | .findInvite inviter user, s => (s.inviteOf inviter user.id, s)
  | .findByToken token, s => (s.invites.rows.find? fun i => i.token = token && i.revokedAt.isNone, s)
  | .hasFeature _, s => (chance.hasFeature, s)
  | .commit w, s => s.commit k w
  | .setUsed i usedAt, s => ((), s.setUsed k i usedAt)
  | .markInvitesUsed mobile, s => ((), s.markInvitesUsed mobile)
  | .leave inviter invitee, s =>
      (s.factories.contains (inviter, invitee), { s with factories := s.factories.erase (inviter, invitee) })
  | .revoke inviter invitee now, s => s.revoke inviter invitee now
  | .findStale hours, s => (s.stale hours, s)
  | .expire id, s => s.expire k id

end TransportBackend.InviteStore
