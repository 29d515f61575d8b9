import Superkiro.Billing.Requests

namespace Billing

open Except

-- A card event's id says which card, when, and how long the ledger was.
def eventId (action cardId : String) (now ledgerLen : Nat) : String :=
  action ++ "-" ++ cardId ++ "-" ++ toString now ++ "-" ++ toString ledgerLen

def nonBlank (s : String) : Option String := if s.isEmpty then none else some s

-- A change of a card as an entry of no credits naming who made it and why.
def cardEventEntry (ledgerLen : Nat) (cardId action operator reason : String) (now : Nat) :
    LedgerEntry F where
  id             := "ledger-" ++ eventId action cardId now ledgerLen
  cardId         := cardId
  kind           := .adjustment
  invocationId   := some (eventId action cardId now ledgerLen)
  exposedModel   := action
  providerId     := "system"
  targetModel    := action
  creditsCharged := 0
  tsSecs         := now
  operatorId     := some operator
  reason         := nonBlank (Text.trim reason)

def namedOperator (operator action : String) : Result String := do
  ensure (!(Text.trim operator).isEmpty)
    (.invalidAdjustment ("Operator ID is required to " ++ action))
  return Text.trim operator

namespace Tables

variable (t : Tables F)

-- A card changed and the change recorded.
def withCard (key : String) (card : Card) (entries : List (LedgerEntry F)) : Tables F :=
  { t with cards := t.cards.insert key card, ledger := t.ledger ++ entries }

-- Commits a changed card with its entry.
def writeCard (key : String) (card : Card) (entry : LedgerEntry F) : Txn F Card :=
  .write (t.withCard key card [entry]) (·.withCard key card [entry]) card

def getCard (id : String) : Result Card := ofOption (t.cards.lookup id) (.cardNotFound id)

def noteWith (tag reason : String) (note : Option String) : Option String :=
  some (Text.trim ("[" ++ tag ++ ": " ++ reason ++ "] " ++ note.getD ""))

def freezeCard (cardId operator reason : String) (now : Nat) : Result (Txn F Card) := do
  let operator ← namedOperator operator "freeze card"
  let card ← t.getCard cardId
  ensure (card.status = .unactivated || card.status = .active || card.status = .expired)
    (.invalidState ("cannot freeze " ++ card.status.debug))
  let card := { card with
    frozenFrom   := some card.status
    status       := .frozen
    note         := noteWith "FROZEN" reason card.note
    tokenVersion := satAddU64 card.tokenVersion 1 }
  return t.writeCard cardId card <|
    cardEventEntry t.ledger.length cardId "freeze_card" operator reason now

-- The status an unfreeze restores.
def frozenOrigin (card : Card) : CardStatus :=
  card.frozenFrom.getD (if card.activatedAt.isNone then .unactivated else .active)

def unfreezeCard (cardId operator reason : String) (now : Nat) : Result (Txn F Card) := do
  let operator ← namedOperator operator "unfreeze card"
  let card ← t.getCard cardId
  ensure (card.status = .frozen) (.invalidState ("cannot unfreeze " ++ card.status.debug))
  let origin := frozenOrigin card
  ensure (origin = .unactivated || origin = .active || origin = .expired)
    (.invalidState "invalid frozen origin")
  return t.writeCard cardId { card with status := origin, frozenFrom := none } <|
    cardEventEntry t.ledger.length cardId "unfreeze_card" operator reason now

def banCard (cardId operator reason : String) (now : Nat) : Result (Txn F Card) := do
  let operator ← namedOperator operator "ban card"
  let card ← t.getCard cardId
  ensure (card.status ≠ .voided) (.invalidState "cannot ban a voided card")
  let card := { card with
    status       := .banned
    note         := noteWith "BANNED" reason card.note
    tokenVersion := satAddU64 card.tokenVersion 1 }
  return t.writeCard cardId card <|
    cardEventEntry t.ledger.length cardId "ban_card" operator reason now

-- Changes a card for an operator and writes the change to its history. The change says what the
-- history records besides, or nothing when the card already is as asked.
def changeCard (cardId action operator reason : String) (now : Nat)
    (change : Card → Result (Option (Card × Option Json))) : Result (Txn F Card) := do
  let operator ← namedOperator operator action
  let card ← t.getCard cardId
  match ← change card with
  | none                => return .answer card
  | some (card, detail) =>
    return t.writeCard cardId card
      { cardEventEntry t.ledger.length cardId action operator reason now with detail := detail }

-- The length of the longest known reason a note continues with, up to its closing bracket.
def banReasonLength (after : List Char) (bans : List (List Char)) : Option Nat :=
  let known := bans.filter fun ban => ban.isPrefixOf after && (after.drop ban.length).head? = some ']'
  match (known.map List.length).max? with
  | some n => some n
  | none   => after.findIdx? (· = ']')

-- A prefix is at least one character, so the length of the note is fuel enough.
def stripBans (bans : List (List Char)) : Nat → List Char → List Char
  | 0, rest        => rest
  | fuel + 1, rest =>
    match rest.dropPrefix? "[BANNED: ".toList with
    | none       => rest
    | some after =>
      match banReasonLength after bans with
      | none   => rest
      | some n => stripBans bans fuel (Text.trimStart (after.drop (n + 1)))

-- A note without what bans put before it.
def withoutBanPrefixes (note : String) (bans : List String) : Option String :=
  nonBlank <| .ofList <|
    stripBans (bans.map fun b => (Text.trim b).toList) note.length (Text.trimStart note.toList)

def banReasons (cardId : String) : List String :=
  ((t.ledger ++ t.archivedLedgerSummary.adjustments.values).filter fun e =>
    e.cardId = cardId && e.kind = .adjustment && e.exposedModel = "ban_card").filterMap (·.reason)

def unbanCard (cardId operator reason : String) (now : Nat) : Result (Txn F Card) :=
  t.changeCard cardId "unban_card" operator reason now fun card => do
    ensure (card.status = .banned) (.invalidState ("cannot unban " ++ card.status.debug))
    ensure card.archivedAt.isNone
      (.invalidState "Archived cards must be unarchived before they are unbanned")
    let status : CardStatus :=
      if card.frozenFrom.isSome then .frozen
      else if card.activatedAt.isSome then .active
      else .unactivated
    let note := card.note.bind (withoutBanPrefixes · (t.banReasons card.id))
    return some ({ card with status := status, note := note },
      some (.obj [("status", .str status.encoded)]))

def changeCardGroup (cardId groupId operator reason : String) (now : Nat) :
    Result (Txn F Card) :=
  t.changeCard cardId "change_group" operator reason now fun card => do
    let group ← ofOption (t.groups.lookup groupId) (.invalidState ("Unknown group: " ++ groupId))
    ensure group.issuanceEnabled (.invalidState ("Group does not take cards: " ++ groupId))
    let moved := { card with groupId := groupId, tokenVersion := satAddU64 card.tokenVersion 1 }
    let detail : Json := .obj [("previousGroupId", .str card.groupId), ("groupId", .str groupId)]
    return if card.groupId = groupId then none else some (moved, some detail)

def voidEntry (cardId operator reason : String) (now : Nat) : LedgerEntry F where
  id             := "ledger-" ++ eventId "void" cardId now t.ledger.length
  cardId         := cardId
  kind           := .adjustment
  invocationId   := some (eventId "void" cardId now t.ledger.length)
  exposedModel   := "void_card"
  providerId     := "system"
  targetModel    := "void_card"
  creditsCharged := 0
  tsSecs         := now
  operatorId     := some operator
  reason         := some reason

def isUntouched (card : Card) : Bool :=
  card.status = .unactivated && card.activatedAt.isNone && card.validUntil.isNone &&
  card.creditUsed = 0 && card.creditReserved = 0 && card.boundDevices.isEmpty

def voidNote (operator reason : String) (now : Nat) (note : Option String) : Option String :=
  some <| Text.trim <|
    "[VOIDED by " ++ operator ++ " at " ++ toString now ++ ": " ++ reason ++ "] " ++ note.getD ""

def voidCardInner (cardId operator reason : String) (now : Nat) (unactivatedOnly : Bool) :
    Result (Txn F Card) := do
  let operator := Text.trim operator
  ensure (!operator.isEmpty) (.invalidAdjustment "Operator ID is required to void card")
  let reason := Text.trim reason
  ensure (!reason.isEmpty) (.invalidAdjustment "Reason is required to void card")
  let card ← t.getCard cardId
  if card.status = .voided then return .answer card
  else
    ensure (!unactivatedOnly || isUntouched card) (.cannotVoidActivatedCard cardId card.status)
    ensure (card.creditReserved = 0 && (t.heldBy cardId).isEmpty)
      (.invalidState "Card has in-flight requests; freeze it and retry after settlement")
    let card := { card with
      status       := .voided
      note         := voidNote operator reason now card.note
      tokenVersion := satAddU64 card.tokenVersion 1 }
    return t.writeCard cardId card (t.voidEntry cardId operator reason now)

end Tables

def legacyActivationSecs : Nat := 30 * 86400

-- Whether a card's validity is still a duration counted from activation.
def awaitsActivation (card : Card) : Bool :=
  card.activatedAt.isNone && card.validUntil.isNone &&
  card.status ≠ .active && card.status ≠ .expired

-- How an operator extends the validity of cards: by a number of days, or to a time.
inductive ValidityExtension
  | days (n : Nat)
  | until (secs : Nat)
  deriving DecidableEq

def daySecs (days : Nat) : Nat := min (days * 86400) u64Max

-- An activated card with a new expiry. One that had expired can be used again.
def Card.extendedTo (card : Card) (until_ : Nat) : Card :=
  { card with
    validUntil := some until_
    status     := if card.status = .expired then .active else card.status
    frozenFrom := if card.frozenFrom = some .expired then some .active else card.frozenFrom }

def Card.extendedActivation (card : Card) (duration : Nat) : Card :=
  { card with activationDurationSecs := some duration }

def optNat : Option Nat → Json
  | some n => .num n
  | none   => .null

def optStr : Option String → Json
  | some s => .str s
  | none   => .null

def activationDetail (duration previous : Nat) : Json := .obj [
  ("activationDurationSecs", .num duration),
  ("previousActivationDurationSecs", .num previous)
]

def extendCard (id : String) (card : Card) (x : ValidityExtension) (now : Nat) :
    Result (Card × Json) :=
  match awaitsActivation card, card.validUntil, x with
  | true, _, .days n =>
    let previous := card.activationDurationSecs.getD legacyActivationSecs
    let duration := satAddU64 previous (daySecs n)
    pure (card.extendedActivation duration, activationDetail duration previous)
  | false, some current, x =>
    let until_ := match x with
      | .days n  => satAddU64 (max current now) (daySecs n)
      | .until u => u
    pure (card.extendedTo until_,
      .obj [("validUntil", .num until_), ("previousValidUntil", .num current)])
  | _, _, _ => throw <| .invalidState ("card " ++ id ++ " cannot be extended")

namespace Tables

variable (t : Tables F)

def neverExpires (card : Card) : Bool :=
  if awaitsActivation card then card.activationDurationSecs = some 0 else card.validUntil.isNone

def checkExtension (x : ValidityExtension) (now : Nat) : Result Unit :=
  match x with
  | .days n  => ensure (n ≠ 0) (.invalidAdjustment "extension must be at least one day")
  | .until u => ensure (now < u) (.invalidAdjustment "the new expiry must be in the future")

-- The cards among some ids that are refused.
def refusedCards (ids : List String) (p : Card → Bool) : List String :=
  ids.filter fun id => (t.cards.lookup id).any p

def refuseCards (ids : List String) (p : Card → Bool) (message : String) : Result Unit :=
  ensure (t.refusedCards ids p).isEmpty
    (.invalidState (message ++ ": " ++ Text.join ", " (t.refusedCards ids p)))

def checkExtendable (ids : List String) (x : ValidityExtension) : Result Unit := do
  let missing := ids.filter fun id => !decide (id ∈ t.cards)
  ensure missing.isEmpty (.cardNotFound (Text.join ", " missing))
  t.refuseCards ids (·.status = .voided) "Voided cards cannot be extended"
  t.refuseCards ids (·.archivedAt.isSome)
    "Archived cards must be unarchived before they are extended"
  t.refuseCards ids neverExpires "Cards that never expire cannot be extended"
  match x with
  | .days _  => pure ()
  | .until u => do
    t.refuseCards ids awaitsActivation "An expiry date applies only to activated cards"
    t.refuseCards ids (·.validUntil.any (u < ·))
      "The new expiry is earlier than the current one of"

-- What extending some cards changes: the tables, the entries and the cards.
structure Extended (F : Type) where
  tables  : Tables F
  entries : List (LedgerEntry F)
  changed : List Card

def extendOne (x : ValidityExtension) (operator reason : String) (now : Nat) (s : Extended F)
    (id : String) : Result (Extended F) := do
  let card ← s.tables.getCard id
  let (card, detail) ← extendCard id card x now
  let entry : LedgerEntry F :=
    { cardEventEntry s.tables.ledger.length id "extend_validity" operator reason now with
      detail := some detail }
  return ⟨s.tables.withCard id card [entry], s.entries ++ [entry], s.changed ++ [card]⟩

def publishExtended (s : Extended F) (live : Tables F) : Tables F :=
  { live with
    cards  := s.changed.foldl (fun cards card => cards.insert card.id card) live.cards
    ledger := live.ledger ++ s.entries }

def extendValidity (cardIds : List String) (x : ValidityExtension) (operator reason : String)
    (now : Nat) : Result (Txn F (List Card)) := do
  let operator ← namedOperator operator "extend validity"
  checkExtension x now
  let ids := cardIds.foldl pushNew []
  t.checkExtendable ids x
  let s ← ids.foldlM (extendOne x operator reason now) ⟨t, [], []⟩
  return .write s.tables (publishExtended s) s.changed

end Tables
end Billing
