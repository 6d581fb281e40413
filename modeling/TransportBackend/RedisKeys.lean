import Mathlib.Data.List.Pairwise
import Mathlib.Logic.Equiv.Basic
import TransportBackend.EscapedKeys

/-!
# The keys of Redis

A port of `RedisService.key` and of the schema `KEY_PREFIXES` and `RedisKeyParts` (services/redis).  A
text is the list of its code units, so that a part can be any text a user can write.  The digest of a
secret token is a parameter.

* `keyPrefixes_free`: no kind's prefix, with the separator after it, begins another's;
* `key_injective`: a key determines its kind and its parts.
-/

namespace TransportBackend.RedisKeys

open EscapedKeys

/-- The code units of a text. -/
abbrev Text := List UInt16

/-- A literal of the source.  They are all ASCII, so each byte is one code unit. -/
def ascii (s : String) : Text := s.toByteArray.data.toList.map UInt8.toUInt16

/-! ### The schema -/

/-- What is kept in Redis. -/
inductive KeyKind where
  | registration | registrationToken | registrationLock | registrationCooldown
  | registrationSends | refreshToken | activeSession | adminSignInFailures | telegramIdentity
  | telegramIdentityRoles | telegramAccessLock | factoryInvite | telegramSession
  | telegramReceiptLock | telegramKeyboard | telegramAgentSession | companyChannelsDialog
  | companyProfileDialog | cargoSuggestionNoticeActivity | cargoSuggestionPushWindow
  | cargoSuggestionPushPending | cargoDigestWindow | cargoDigestPending | cargoDigestScheduled
  | usageActiveDay | usageBotDay | cargoDialog | factoryDialog | companyFeatureDialog
  | brokerAccessDialog | tripDialog | tripFareDialog | locationRequest | whatsappMenu
  | whatsappMenuMessages | whatsappLive | routingGeocode | routingAbroad | routingPlace
  | tripTypeRoute | placeLatinName | routingRoutes | routingShapes | routingDistance
  | routingTraffic | fuelStationChunk | fuelStationChunkV1 | driverFuelKinds | rubikaPollOffset
  | eitaaEvent | eitaaPeer | eitaaShownKeyboard | messengerLinkCode | messengerLinkUser
  | messengerLinkAttempts | subscriptionPolicy | receiptViewToken | receiptUnlockAttempts
  | subscriptionNoticeSent | companyPlanReminded | marketPrices | marketRefreshLock
  | marketLiveMessages | borderData | borderRefreshLock
  deriving DecidableEq

def keyPrefixes : KeyKind → String
  | .registration => "auth:registration"
  | .registrationToken => "auth:registration-token"
  | .registrationLock => "auth:registration-lock"
  | .registrationCooldown => "auth:registration-cooldown"
  | .registrationSends => "auth:registration-sends"
  | .refreshToken => "auth:refresh"
  | .activeSession => "auth:active-session:v1"
  | .adminSignInFailures => "auth:admin-signin-failures:v1"
  | .telegramIdentity => "telegram:identity:v1"
  | .telegramIdentityRoles => "telegram:identity-roles:v1"
  | .telegramAccessLock => "telegram:onboarding-lock:v1"
  | .factoryInvite => "bot:factory-invite:v1"
  | .telegramSession => "telegram:session:v1"
  | .telegramReceiptLock => "telegram:receipt-lock:v1"
  | .telegramKeyboard => "telegram:keyboard:v1"
  | .telegramAgentSession => "telegram:agent-session:v1"
  | .companyChannelsDialog => "messenger:channel-flow:v1"
  | .companyProfileDialog => "messenger:company-profile:v1"
  | .cargoSuggestionNoticeActivity => "messenger:cargo-suggestion-activity:v1"
  | .cargoSuggestionPushWindow => "push:cargo-suggestion-window:v1"
  | .cargoSuggestionPushPending => "push:cargo-suggestion-pending:v1"
  | .cargoDigestWindow => "messenger:cargo-digest-window:v1"
  | .cargoDigestPending => "messenger:cargo-digest-pending:v1"
  | .cargoDigestScheduled => "messenger:cargo-digest-scheduled:v1"
  | .usageActiveDay => "usage:active-day:v1"
  | .usageBotDay => "usage:bot-day:v1"
  | .cargoDialog => "messenger:cargo-flow:v1"
  | .factoryDialog => "messenger:factory-flow:v1"
  | .companyFeatureDialog => "messenger:company-feature-flow:v1"
  | .brokerAccessDialog => "messenger:broker-access-flow:v1"
  | .tripDialog => "messenger:trip-flow:v1"
  | .tripFareDialog => "messenger:trip-fare-flow:v1"
  | .locationRequest => "messenger:location-request:v1"
  | .whatsappMenu => "whatsapp:menu:v1"
  | .whatsappMenuMessages => "whatsapp:menu-messages:v1"
  | .whatsappLive => "whatsapp:live-location:v1"
  | .routingGeocode => "routing:geocode:v4"
  | .routingAbroad => "routing:abroad:v1"
  | .routingPlace => "routing:place:v1"
  | .tripTypeRoute => "cargo:trip-type-route:v4"
  | .placeLatinName => "cargo:place-latin-name:v1"
  | .routingRoutes => "routing:routes:v3"
  | .routingShapes => "routing:shapes:v1"
  | .routingDistance => "routing:distance:v2"
  | .routingTraffic => "routing:traffic:v1"
  | .fuelStationChunk => "routing:fuel-chunk:v2"
  | .fuelStationChunkV1 => "routing:fuel-chunk:v1"
  | .driverFuelKinds => "driver:fuel-kinds:v1"
  | .rubikaPollOffset => "rubika:poll-offset:v1"
  | .eitaaEvent => "eitaa:event:v1"
  | .eitaaPeer => "eitaa:peer:v1"
  | .eitaaShownKeyboard => "eitaa:shown-keyboard:v1"
  | .messengerLinkCode => "messenger:link-code:v1"
  | .messengerLinkUser => "messenger:link-user:v1"
  | .messengerLinkAttempts => "messenger:link-attempts:v1"
  | .subscriptionPolicy => "settings:subscription-policy:v1"
  | .receiptViewToken => "admin:receipt-view-token:v1"
  | .receiptUnlockAttempts => "admin:receipt-unlock-attempts:v1"
  | .subscriptionNoticeSent => "subscription:notice-sent:v1"
  | .companyPlanReminded => "company-plan:reminded:v1"
  | .marketPrices => "market:prices:v2"
  | .marketRefreshLock => "market:refresh-lock:v2"
  | .marketLiveMessages => "market:live-messages:v1"
  | .borderData => "border:data:v1"
  | .borderRefreshLock => "border:refresh-lock:v1"

/-- How many parts a kind's key has. -/
def partCount : KeyKind → ℕ
  | .subscriptionPolicy | .marketPrices | .marketRefreshLock | .marketLiveMessages
  | .borderRefreshLock => 0
  | .registration | .registrationToken | .registrationLock | .registrationCooldown
  | .registrationSends | .refreshToken | .activeSession | .adminSignInFailures
  | .cargoSuggestionPushWindow | .cargoSuggestionPushPending | .locationRequest | .whatsappMenu
  | .whatsappMenuMessages | .whatsappLive | .routingGeocode | .routingAbroad | .routingPlace
  | .tripTypeRoute | .placeLatinName | .routingRoutes | .routingShapes | .routingDistance
  | .routingTraffic | .fuelStationChunk | .fuelStationChunkV1 | .driverFuelKinds
  | .rubikaPollOffset | .messengerLinkAttempts | .receiptViewToken | .receiptUnlockAttempts => 1
  | .telegramIdentity | .telegramIdentityRoles | .telegramAccessLock | .factoryInvite
  | .telegramSession | .telegramReceiptLock | .telegramKeyboard | .telegramAgentSession
  | .companyChannelsDialog | .companyProfileDialog | .cargoSuggestionNoticeActivity
  | .cargoDigestWindow | .cargoDigestPending | .cargoDigestScheduled | .usageBotDay
  | .cargoDialog | .factoryDialog | .companyFeatureDialog | .brokerAccessDialog | .tripDialog
  | .tripFareDialog | .eitaaEvent | .eitaaPeer | .eitaaShownKeyboard | .messengerLinkCode
  | .messengerLinkUser | .subscriptionNoticeSent | .companyPlanReminded | .borderData => 2
  | .usageActiveDay => 3

/-- The parts of a key of the kind. -/
abbrev RedisKeyParts (kind : KeyKind) := { parts : List Text // parts.length = partCount kind }

/-! ### The key -/

def colon : UInt16 := 58

def percent : UInt16 := 37

def escapePart (part : Text) : Text := escape percent colon (ascii "%25") (ascii "%3A") part

/-- The kinds whose part is a secret, of which the key shows only the digest. -/
def isSecret : KeyKind → Bool
  | .refreshToken | .registrationToken | .receiptViewToken => true
  | _ => false

def identifiers (sha256 : Text → Text) (kind : KeyKind) (parts : List Text) : List Text :=
  if isSecret kind then (parts.take 1).map sha256 else parts.map escapePart

def key (sha256 : Text → Text) (kind : KeyKind) (parts : RedisKeyParts kind) :
    Except String Text :=
  if parts.val.any fun part => part.isEmpty then .error "Redis key parts must be non-empty."
  else .ok (joined colon (ascii (keyPrefixes kind) :: identifiers sha256 kind parts.val))

/-! ### The prefixes -/

def allKinds : List KeyKind :=
  [.registration, .registrationToken, .registrationLock, .registrationCooldown,
  .registrationSends, .refreshToken, .activeSession, .adminSignInFailures, .telegramIdentity,
  .telegramIdentityRoles, .telegramAccessLock, .factoryInvite, .telegramSession,
  .telegramReceiptLock, .telegramKeyboard, .telegramAgentSession, .companyChannelsDialog,
  .companyProfileDialog, .cargoSuggestionNoticeActivity, .cargoSuggestionPushWindow,
  .cargoSuggestionPushPending, .cargoDigestWindow, .cargoDigestPending, .cargoDigestScheduled,
  .usageActiveDay, .usageBotDay, .cargoDialog, .factoryDialog, .companyFeatureDialog,
  .brokerAccessDialog, .tripDialog, .tripFareDialog, .locationRequest, .whatsappMenu,
  .whatsappMenuMessages, .whatsappLive, .routingGeocode, .routingAbroad, .routingPlace,
  .tripTypeRoute, .placeLatinName, .routingRoutes, .routingShapes, .routingDistance,
  .routingTraffic, .fuelStationChunk, .fuelStationChunkV1, .driverFuelKinds, .rubikaPollOffset,
  .eitaaEvent, .eitaaPeer, .eitaaShownKeyboard, .messengerLinkCode, .messengerLinkUser,
  .messengerLinkAttempts, .subscriptionPolicy, .receiptViewToken, .receiptUnlockAttempts,
  .subscriptionNoticeSent, .companyPlanReminded, .marketPrices, .marketRefreshLock,
  .marketLiveMessages, .borderData, .borderRefreshLock]

theorem mem_allKinds (kind : KeyKind) : kind ∈ allKinds := by
  cases kind <;> decide

/-- Neither prefix, with the separator after it, begins the other. -/
def Distinct (j k : KeyKind) : Prop :=
  ¬ ascii (keyPrefixes j) ++ [colon] <+: ascii (keyPrefixes k) ++ [colon] ∧
    ¬ ascii (keyPrefixes k) ++ [colon] <+: ascii (keyPrefixes j) ++ [colon]

instance : Std.Symm Distinct := ⟨fun _ _ h => And.symm h⟩

instance (j k : KeyKind) : Decidable (Distinct j k) := instDecidableAnd

theorem allKinds_distinct : allKinds.Pairwise Distinct := by decide +kernel

/-- **No kind's prefix, with the separator after it, begins another's.** -/
theorem keyPrefixes_free (j k : KeyKind)
    (h : ascii (keyPrefixes j) ++ [colon] <+: ascii (keyPrefixes k) ++ [colon]) : j = k := by
  by_contra hne
  have hdistinct : Distinct j k := allKinds_distinct.forall (mem_allKinds j) (mem_allKinds k) hne
  exact hdistinct.1 h

/-! ### The parts -/

theorem escapePart_injective : Function.Injective escapePart :=
  escape_injective (by decide +kernel) (by decide +kernel) (by decide +kernel) (by decide +kernel)
    (by decide +kernel)

theorem colon_notMem_escapePart (part : Text) : colon ∉ escapePart part :=
  not_mem_escape (by decide +kernel) part

theorem partCount_of_isSecret {kind : KeyKind} (h : isSecret kind = true) : partCount kind = 1 := by
  cases kind <;> first | rfl | exact absurd h Bool.false_ne_true

theorem length_identifiers (sha256 : Text → Text) {kind : KeyKind} (parts : RedisKeyParts kind) :
    (identifiers sha256 kind parts.val).length = partCount kind := by
  unfold identifiers
  split
  · rename_i hsecret
    rw [List.length_map, List.length_take, parts.property, partCount_of_isSecret hsecret]
    rfl
  · rw [List.length_map, parts.property]

/-- **The identifiers determine the parts**: a secret by its digest, the others by their escaped text. -/
theorem parts_of_identifiers {sha256 : Text → Text} (hsha : Function.Injective sha256) {kind : KeyKind}
    {p q : RedisKeyParts kind}
    (h : joined colon (identifiers sha256 kind p.val) = joined colon (identifiers sha256 kind q.val)) :
    p.val = q.val := by
  cases hsecret : isSecret kind with
  | true =>
      have hone : ∀ r : RedisKeyParts kind, ∃ secret, r.val = [secret] := by
        intro r
        exact List.length_eq_one_iff.mp (r.property.trans (partCount_of_isSecret hsecret))
      obtain ⟨x, hx⟩ := hone p
      obtain ⟨y, hy⟩ := hone q
      rw [hx, hy] at h ⊢
      have hdigest : sha256 x = sha256 y := by
        simpa [identifiers, hsecret, joined] using h
      rw [hsha hdigest]
  | false =>
      have hescaped : ∀ r : RedisKeyParts kind,
          identifiers sha256 kind r.val = r.val.map escapePart := by
        intro r
        rw [identifiers, hsecret]
        rfl
      have hfree : ∀ r : RedisKeyParts kind, ∀ part ∈ r.val.map escapePart, colon ∉ part := by
        intro r part hpart
        obtain ⟨x, _, rfl⟩ := List.mem_map.mp hpart
        exact colon_notMem_escapePart x
      rw [hescaped p, hescaped q] at h
      have hlen : (p.val.map escapePart).length = (q.val.map escapePart).length := by
        rw [List.length_map, List.length_map, p.property, q.property]
      exact List.map_injective_iff.mpr escapePart_injective (parts_unique hlen (hfree p) (hfree q) h)

/-! ### The key -/

/-- A key is made of parts that are not empty. -/
theorem key_ok (sha256 : Text → Text) {kind : KeyKind} {parts : RedisKeyParts kind}
    (h : ∀ part ∈ parts.val, part ≠ []) :
    key sha256 kind parts =
      .ok (joined colon (ascii (keyPrefixes kind) :: identifiers sha256 kind parts.val)) := by
  rw [key, if_neg]
  intro hempty
  obtain ⟨part, hpart, hnil⟩ := List.any_eq_true.mp hempty
  exact h part hpart (List.isEmpty_iff.mp hnil)

/-- **A key determines its kind and its parts.** -/
theorem key_injective {sha256 : Text → Text} (hsha : Function.Injective sha256) {j k : KeyKind}
    {p : RedisKeyParts j} {q : RedisKeyParts k} (hp : ∀ part ∈ p.val, part ≠ [])
    (hq : ∀ part ∈ q.val, part ≠ []) :
    key sha256 j p = key sha256 k q ↔ j = k ∧ p.val = q.val := by
  rw [key_ok sha256 hp, key_ok sha256 hq]
  constructor
  · intro h
    have hjoined := Except.ok.inj h
    obtain rfl : j = k := name_unique keyPrefixes_free hjoined
    have hlen : (identifiers sha256 j p.val).length = (identifiers sha256 j q.val).length := by
      rw [length_identifiers sha256 p, length_identifiers sha256 q]
    exact ⟨rfl, parts_of_identifiers hsha (joined_tail hlen hjoined)⟩
  · rintro ⟨rfl, hparts⟩
    rw [hparts]

/-- The digest of the token `abc`. -/
def abcDigest : Text :=
  ascii "ba7816bf8f01cfea414140de5dae2223b00361a396177a9cb410ff61f20015ad"

theorem key_injective_colons :
    key (Equiv.swap (ascii "abc") abcDigest) .refreshToken ⟨[ascii "abc"], rfl⟩ =
        .ok (ascii "auth:refresh:" ++ abcDigest) ∧
      key (Equiv.swap (ascii "abc") abcDigest) .messengerLinkUser
          ⟨[ascii "bale", ascii "7:1"], rfl⟩ ≠
        key (Equiv.swap (ascii "abc") abcDigest) .messengerLinkUser
          ⟨[ascii "bale:7", ascii "1"], rfl⟩ := by
  refine ⟨?_, fun h => ?_⟩
  · rw [key_ok]
    · decide +kernel
    · decide +kernel
  · have hparts := ((key_injective (Equiv.swap (ascii "abc") abcDigest).injective (by decide +kernel)
      (by decide +kernel)).mp h).2
    exact absurd hparts (by decide +kernel)

end TransportBackend.RedisKeys
