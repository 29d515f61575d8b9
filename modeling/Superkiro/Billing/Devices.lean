import Superkiro.Billing.CardEvents

namespace Billing

open Except

namespace Card

-- The first sign-in starts a card's validity. After that a sign-in only checks the card.
def activate (c : Card) (now duration : Nat) : Except CardError Card := do
  c.checkDevicePolicy
  match c.status with
  | .frozen      => throw <| .notActive .frozen
  | .banned      => throw <| .notActive .banned
  | .voided      => throw <| .notActive .voided
  | .expired     => throw .expired
  | .active      => do
    c.checkActive now
    return c
  | .unactivated =>
    let effective := c.activationDurationSecs.getD duration
    return { c with
      activatedAt := some now
      validUntil  := if 0 < effective then some (satAddU64 now effective) else none
      status      := .active }

-- Whether a customer may unbind a device now.
def checkRebindAllowed (c : Card) (now : Nat) : Result Unit := do
  ensure (c.rebindCount < c.maxRebinds) (.rebindLimitExceeded c.rebindCount c.maxRebinds)
  let cooldown := c.lastRebindAt.map (satAddU64 · c.rebindCooldownSecs)
  ensure (!cooldown.any (now < ·)) (.rebindCooldown (cooldown.getD 0 - now))

def rebindCooldownUntil (c : Card) (now : Nat) : Option Nat :=
  (c.lastRebindAt.map (satAddU64 · c.rebindCooldownSecs)).filter (now < ·)

-- Binds a card's empty seat, and says whether the card changed. A device that is bound stays.
def bindDeviceLocked (c : Card) (device : String) : Result (Card × Bool) := do
  liftCard c.checkDevicePolicy
  ensure (!Text.isBlank device) (.invalidState "device fingerprint is required")
  let normalized := { c with maxDevices := 1 }
  ensure (c.boundDevices.contains device || c.boundDevices.isEmpty) .deviceAlreadyBound
  return if c.boundDevices.contains device then (normalized, c.maxDevices ≠ 1)
    else ({ normalized with boundDevices := [device] }, true)

-- A sign-in on a device, when one is given.
def bindGiven (c : Card) (device : Option String) : Result Card :=
  match device.filter (!Text.isBlank ·) with
  | some d => do
    let (c, _) ← c.bindDeviceLocked (Text.trim d)
    return c
  | none   => pure c

def withoutDevice (c : Card) (device : String) : Card :=
  { c with
    boundDevices := c.boundDevices.erase device
    tokenVersion := satAddU64 c.tokenVersion 1 }

-- A sign-in starts a new refresh family.
def withNewFamily (c : Card) : Card :=
  { c with
    refreshVersion   := max (satAddU64 c.refreshVersion 1) 1
    refreshRotatedAt := none }

def withRotation (c : Card) (now : Nat) : Card :=
  { c with
    refreshVersion   := max (satAddU64 c.refreshVersion 1) 1
    refreshRotatedAt := some now }

def rekeyed (c : Card) (codeHash : String) (recovery : Option String) : Card :=
  { c with
    codeHash      := codeHash
    codeEncrypted := recovery
    tokenVersion  := satAddU64 c.tokenVersion 1 }

end Card

-- A code that was generated, with its recovery copy where there is a key to encrypt it.
structure NewCode where
  code     : String
  recovery : Option String

-- What a refresh token gets: the next version of its family, or the current one again.
inductive RefreshRotation
  | rotated (version : Nat)
  | reissued (version : Nat)
  deriving DecidableEq

def RefreshRotation.version : RefreshRotation → Nat
  | rotated v  => v
  | reissued v => v

namespace Tables

variable (t : Tables F)

def putCard (key : String) (card : Card) : Tables F := { t with cards := t.cards.insert key card }

-- Commits a changed card without an entry.
def replaceCard (key : String) (card : Card) (result : α) : Txn F α :=
  .write (t.putCard key card) (·.putCard key card) result

def activateCard (cardId : String) (now duration : Nat) : Result (Txn F Card) := do
  let card ← t.getCard cardId
  ensure (card.status ≠ .frozen && card.status ≠ .banned && card.status ≠ .voided)
    (.card (.notActive card.status))
  let card ← liftCard (card.activate now duration)
  return t.replaceCard cardId card card

-- Activates a card and binds its first device, or neither.
def activateCardWithDevice (cardId : String) (now duration : Nat) (device : Option String) :
    Result (Txn F Card) := do
  let card ← t.getCard cardId
  let card ← liftCard (card.activate now duration)
  let card ← card.bindGiven device
  return t.replaceCard cardId card.withNewFamily card.withNewFamily

def bindDevice (cardId device : String) : Result (Txn F Unit) := do
  let card ← t.getCard cardId
  let (card, changed) ← card.bindDeviceLocked (Text.trim device)
  return if changed then t.replaceCard cardId card () else .answer ()

-- A customer's own unbinding counts towards their allowance and starts a cooldown.
def unbindDevice (cardId device : String) (now : Nat) : Result (Txn F Unit) := do
  let card ← t.getCard cardId
  ensure (card.boundDevices.contains device) (.deviceNotFound cardId device)
  card.checkRebindAllowed now
  let card := { card.withoutDevice device with
    rebindCount  := min (card.rebindCount + 1) 4294967295
    lastRebindAt := some now }
  return t.replaceCard cardId card ()

def adminUnbindDevice (cardId device operator reason : String) (now : Nat) :
    Result (Txn F Card) :=
  t.changeCard cardId "unbind_device" operator reason now fun card => do
    ensure (card.boundDevices.contains device) (.deviceNotFound card.id device)
    return some (card.withoutDevice device, some (.obj [("deviceId", .str device)]))

def resetRebinds (cardId operator reason : String) (now : Nat) : Result (Txn F Card) :=
  t.changeCard cardId "reset_rebinds" operator reason now fun card =>
    let detail : Json := .obj [
      ("previousRebinds", .num card.rebindCount),
      ("previousCooldownUntil", optNat (card.rebindCooldownUntil now))
    ]
    pure <|
      if card.rebindCount = 0 && card.lastRebindAt.isNone then none
      else some ({ card with rebindCount := 0, lastRebindAt := none }, some detail)

def fingerprint (hash : String) : String := .ofList (hash.toList.take 8)

-- Gives a card a new code. The old one signs in no more, and the card's sessions end.
def rekeyCard (hash : String → String) (cardId : String) (new : NewCode) (operator reason : String)
    (now : Nat) : Result (Txn F Card) :=
  t.changeCard cardId "rekey_card" operator reason now fun card => do
    ensure (card.status ≠ .voided)
      (.invalidState ("Voided cards cannot be given a new code: " ++ cardId))
    ensure card.archivedAt.isNone (.invalidState <|
      "Archived cards must be unarchived before they are given a new code: " ++ cardId)
    ensure (!t.cards.values.any (·.codeHash = hash new.code))
      (.invalidState "another card already uses this code")
    let detail : Json := .obj [
      ("previousCodeFingerprint", .str (fingerprint card.codeHash)),
      ("codeFingerprint", .str (fingerprint (hash new.code)))
    ]
    return some (card.rekeyed (hash new.code) new.recovery, some detail)

def setCardCodeHash (cardId codeHash : String) : Result (Txn F Card) := do
  ensure (!t.cards.values.any fun c => c.id ≠ cardId && c.codeHash = codeHash)
    (.invalidState "another card already uses this code")
  let card ← t.getCard cardId
  return t.replaceCard cardId (card.rekeyed codeHash none) (card.rekeyed codeHash none)

-- Ends a card's sessions.
def revokeTokens (cardId : String) : Result (Txn F Nat) := do
  let card ← t.getCard cardId
  let card := { card with tokenVersion := satAddU64 card.tokenVersion 1 }
  return t.replaceCard cardId card card.tokenVersion

def validRefresh (jti : String) (expires now : Nat) : Bool :=
  now < expires && !jti.isEmpty && Text.len jti ≤ 256

def withTokens (tokens : Table String Nat) : Tables F := { t with consumedRefreshTokens := tokens }

-- The tokens used that could still be presented again.
def unexpiredTokens (now : Nat) : Table String Nat :=
  t.consumedRefreshTokens.retain fun _ expires => now < expires

def tokenUsed : BillingError := .invalidState "refresh token already used"

def consumeRefreshToken (jti : String) (expires now : Nat) : Result (Txn F Unit) := do
  ensure (validRefresh jti expires now) (.invalidState "expired or empty refresh token")
  ensure (!decide (jti ∈ t.unexpiredTokens now)) tokenUsed
  let tokens := (t.unexpiredTokens now).insert jti expires
  return .write (t.withTokens tokens) (·.withTokens tokens) ()

-- Whether a token is the one that the last rotation replaced, which is then a retry of it.
def isRetry (card : Card) (presented now grace : Nat) : Bool :=
  satAddU64 presented 1 = card.refreshVersion && card.refreshRotatedAt.any (now - · < grace)

-- Only a token of the current version rotates the family.
def rotateRefresh (cardId : String) (presented : Nat) (jti : String) (expires now grace : Nat) :
    Result (Txn F RefreshRotation) := do
  ensure (validRefresh jti expires now) (.invalidState "expired or empty refresh token")
  ensure (!(t.consumedRefreshTokens.lookup jti).any (now < ·)) tokenUsed
  let card ← t.getCard cardId
  ensure (presented = card.refreshVersion || isRetry card presented now grace) tokenUsed
  let tokens := t.unexpiredTokens now
  let rotated := card.withRotation now
  return if presented = card.refreshVersion then
      .write ((t.withTokens tokens).putCard cardId rotated)
        (fun live => (live.putCard cardId rotated).withTokens tokens)
        (.rotated rotated.refreshVersion)
    else .answer (.reissued card.refreshVersion)

def archiveAction (archived : Bool) : String := if archived then "archive_card" else "unarchive_card"

-- Hides a card, or shows it again. Neither changes what it may do.
def setCardArchived (cardId : String) (archived : Bool) (operator reason : String) (now : Nat) :
    Result (Txn F Card) := do
  let operator := Text.trim operator
  ensure (!operator.isEmpty) (.invalidAdjustment "Operator ID is required to archive/unarchive card")
  let reason := Text.trim reason
  ensure (!reason.isEmpty) (.invalidAdjustment "Reason is required to archive/unarchive card")
  let card ← t.getCard cardId
  if card.archivedAt.isSome = archived then return .answer card
  else
    ensure (!archived || (card.creditReserved = 0 && (card.status = .banned ||
      card.status = .expired || card.status = .voided || Card.isPast card.validUntil now)))
      (.invalidState
        "only banned, expired, or voided cards without reservations can be archived")
    let entry : LedgerEntry F :=
      { cardEventEntry t.ledger.length cardId (archiveAction archived) operator reason now with
        reason := some reason }
    return t.writeCard cardId
      { card with archivedAt := if archived then some now else none } entry

end Tables
end Billing
