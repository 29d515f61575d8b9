import Superkiro.Lib.JsonText
import Superkiro.Billing.Exports
import Superkiro.Billing.System

namespace Billing

open F64 Except Host

structure CardTemplate where
  id                 : String
  name               : String
  durationSecs       : Nat
  creditTotal        : I64
  maxDevices         : Nat := 1
  maxConcurrency     : Nat := 2
  groupId            : String
  dailyCreditLimit   : Option I64 := none
  monthlyCreditLimit : Option I64 := none
  plan               : Option IssuedPlan := none
  deriving DecidableEq

def Card.fromTemplate (id codeHash : String) (t : CardTemplate) (note : Option String)
    (createdAt : Nat) : Card where
  id                     := id
  codeHash               := codeHash
  templateId             := some t.id
  activationDurationSecs := some t.durationSecs
  groupId                := t.groupId
  creditTotal            := t.creditTotal
  issuedCredits          := some t.creditTotal
  plan                   := t.plan
  maxConcurrency         := t.maxConcurrency
  dailyCreditLimit       := t.dailyCreditLimit
  monthlyCreditLimit     := t.monthlyCreditLimit
  note                   := note
  createdAt              := createdAt

def hexEncode (bytes : List UInt8) : List Char :=
  bytes.flatMap fun b => [Nat.digitChar (b.toNat / 16), Nat.digitChar (b.toNat % 16)]

-- What fills the bytes of each code, unless it fails.
abbrev Rng := Nat → Option (Fin 16 → UInt8)

def generateRawCode (bytes : Fin 16 → UInt8) : String :=
  "kiro" ++ .ofList ((hexEncode (List.ofFn bytes)).zipIdx.flatMap fun (c, i) =>
    if i % 4 = 0 then ['-', c] else [c])

structure DispensedCardItem where
  cardId         : String
  rawCode        : String
  groupId        : String
  initialCredits : I64
  status         : CardStatus
  deriving DecidableEq

structure PullCardsRequest where
  orderId    : String
  templateId : Option String := none
  groupId    : Option String := none
  count      : Nat
  note       : Option String := none
  deriving DecidableEq

structure PullCardsResponse where
  orderId     : String
  cards       : List DispensedCardItem
  dispensedAt : Nat
  deriving DecidableEq

inductive RedeemAction
  | verifyOnly
  | activate (durationSecs : Nat)
  | bindDevice (deviceId : String)
  | topup (topupCode : String)
  deriving DecidableEq

structure RedeemCallbackRequest where
  orderId      : String
  cardCodeOrId : String
  action       : RedeemAction
  buyerContact : Option String := none
  tradeNo      : Option String := none
  deriving DecidableEq

structure RedeemCallbackResponse where
  success          : Bool
  orderId          : String
  cardId           : String
  status           : CardStatus
  remainingCredits : I64
  validUntil       : Option Nat
  message          : String
  deriving DecidableEq

-- What the platform takes from libraries: encryption, the debugging format of a text, and
-- responses as JSON, which is read back.
class PlatformHost where
  encrypt           : String → Option String
  debugText         : String → String
  responseJson      : PullCardsResponse → String
  readResponse      : String → Option PullCardsResponse
  read_responseJson : ∀ r, readResponse (responseJson r) = some r

open PlatformHost

def RedeemAction.debug [PlatformHost] : RedeemAction → String
  | verifyOnly   => "VerifyOnly"
  | activate d   => "Activate \x7b duration_secs: " ++ toString d ++ " \x7d"
  | bindDevice d => "BindDevice \x7b device_id: " ++ debugText d ++ " \x7d"
  | topup c      => "Topup \x7b topup_code: " ++ debugText c ++ " \x7d"

namespace PullCardsRequest

variable (req : PullCardsRequest)

def optional : Option String → Json
  | some s => .str s
  | none   => .null

-- A structured encoding, in which fields can't run into each other.
def fingerprint : String :=
  Json.compact (.obj [
    ("order_id", .str req.orderId), ("template_id", optional req.templateId),
    ("group_id", optional req.groupId), ("count", .num req.count), ("note", optional req.note)])

-- Whether a template is the one a request asks for.
def Fits (t : CardTemplate) : Prop :=
  (∀ id ∈ req.templateId, id = t.id) ∧ ∀ id ∈ req.groupId, id = t.groupId

instance (t : CardTemplate) : Decidable (req.Fits t) := inferInstanceAs (Decidable (_ ∧ _))

def check (t : CardTemplate) : Except String Unit := do
  ensure (!Text.isBlank req.orderId) "order_id cannot be empty"
  ensure (req.count ≠ 0 && req.count ≤ 100) "count must be between 1 and 100"
  ensure (decide (req.Fits t))
    "requested template/group does not match the configured issuance template"

end PullCardsRequest

section Generation

variable (F : Type) [Host F]

-- A batch of cards whose codes are random.
def generateBatch (t : CardTemplate) (count : Nat) (notePrefix : Option String) (now : Nat)
    (rng : Rng) : Except CardError (List GeneratedCard) := do
  ensure (t.maxDevices = 1) .invalidDeviceLimit
  (List.range count).mapM fun i => do
    let bytes ← ofOption (rng i) .generationFailed
    let rawCode := generateRawCode bytes
    let codeHash := hashCardCode F rawCode
    let cardId := "card-" ++ String.ofList (codeHash.toList.take 16)
    let note := notePrefix.map (· ++ "-#" ++ toString (i + 1))
    return ⟨rawCode, .fromTemplate cardId codeHash t note now⟩

variable [PlatformHost]

-- The payload binds a card's code to the card.
def sealCard (g : GeneratedCard) : Result GeneratedCard := do
  let payload := Json.compact (.arr [
    .str "card-code-v1", .str g.card.id, .str g.card.codeHash, .str g.rawCode])
  let ciphertext ← ofOption (encrypt payload) (.invalidState "Card encryption failed")
  return { g with card := { g.card with codeEncrypted := some ciphertext } }

def generateRecoverableCards (masterKek : Bool) (t : CardTemplate) (count : Nat)
    (note : Option String) (now : Nat) (rng : Rng) : Result (List GeneratedCard) := do
  ensure masterKek (.invalidState "MasterKek required for card issuance")
  let generated ← liftCard (generateBatch F t count note now rng)
  generated.mapM sealCard

def GeneratedCard.dispensed (g : GeneratedCard) : DispensedCardItem :=
  ⟨g.card.id, g.rawCode, g.card.groupId, g.card.creditTotal, g.card.status⟩

-- The cards of an order and the response that hands them out.
def generateOrder (masterKek : Bool) (t : CardTemplate) (req : PullCardsRequest) (now : Nat)
    (rng : Rng) : Result (List Card × PullCardsResponse) := do
  let generated ← generateRecoverableCards F masterKek t req.count req.note now rng
  let noted := generated.map fun g => { g with card := { g.card with note := req.note } }
  return (noted.map (·.card), ⟨req.orderId, noted.map (·.dispensed), now⟩)

end Generation

namespace Tables

variable {F : Type} (t : Tables F)

def issueCard (card : Card) : Result (Tables F) := do
  ensure ((t.groups.lookup card.groupId).all (·.issuanceEnabled)) .groupIssuanceDisabled
  ensure (!decide (card.id ∈ t.cards)) (.invalidState "generated card ID collision")
  return t.putCard card.id card

def putCards (cards : List Card) : Tables F := cards.foldl (fun t c => t.putCard c.id c) t

def withOrder (orderId : String) (order : IssuanceOrder) : Tables F :=
  { t with issuanceOrders := t.issuanceOrders.insert orderId order }

-- An order is answered as it was before, or fulfilled.
def fulfillCardOrder [PlatformHost] (orderId fingerprint : String)
    (generate : Result (List Card × PullCardsResponse)) : Result (Txn F String) :=
  match t.issuanceOrders.lookup orderId with
  | some existing => do
    ensure (existing.fingerprint = fingerprint)
      (.invalidState "order_id was already used with a different request")
    return .answer existing.responseJson
  | none => do
    let (cards, response) ← generate
    let candidate ← cards.foldlM issueCard t
    let order : IssuanceOrder := ⟨fingerprint, responseJson response⟩
    return .write (candidate.withOrder orderId order)
      (fun live => (live.putCards cards).withOrder orderId order) order.responseJson

end Tables

structure CachedRedeem where
  fingerprint : String
  response    : RedeemCallbackResponse
  storedAt    : Nat
  deriving DecidableEq

def idempotencyTtlSecs : Nat := 86400

def maxIdempotencyEntries : Nat := 10000

-- An engine, and the callbacks that the platform's manager remembers.
structure Platform (F : Type) where
  engine  : Engine F
  redeems : Table String CachedRedeem := ∅

namespace Platform

variable {F : Type} [F64 F] [Host F] [PlatformHost] (p : Platform F) (io : Io)

-- What the platform makes of an engine's answer.
def answered : Result String × Engine F → Except String PullCardsResponse × Platform F
  | (.error err, e) => (.error err.message, { p with engine := e })
  | (.ok json, e)   =>
    ((readResponse json).elim (.error "invalid response") .ok, { p with engine := e })

def pullCards (t : CardTemplate) (req : PullCardsRequest) (now : Nat) (rng : Rng) :
    Except String PullCardsResponse × Platform F :=
  match req.check t with
  | .error m => (.error m, p)
  | .ok _    =>
    p.answered <| p.engine.transact io <|
      p.engine.tables.fulfillCardOrder req.orderId req.fingerprint
        (generateOrder F p.engine.masterKek t req now rng)

-- A card by its code, its id or its code's hash.
def findCardByCodeOrId (s : String) : Option Card :=
  let cards := p.engine.tables.cards
  let bySecret :=
    if Text.isBlank s then none else cards.values.find? (·.codeHash = hashCardCode F s)
  (bySecret.or (cards.lookup s)).or (cards.values.find? (·.codeHash = s))

def redeemed (req : RedeemCallbackRequest) (cardId : String) (card : Card) (message : String) :
    RedeemCallbackResponse where
  success          := true
  orderId          := req.orderId
  cardId           := cardId
  status           := card.status
  remainingCredits := card.availableCredits
  validUntil       := card.validUntil
  message          := message

def failing (label : String) : Result α → Except String α := Except.mapError (label ++ ·.message)

-- What a callback does, when it isn't one that's remembered.
def redeem (req : RedeemCallbackRequest) (card : Card) (now : Nat) :
    Except String RedeemCallbackResponse × Engine F :=
  let e := p.engine
  match req.action with
  | .verifyOnly => (.ok (redeemed req card.id card "Card verification successful"), e)
  | .activate duration =>
    if card.status = .unactivated ∧ card.activationDurationSecs ≠ some duration then
      (.error "activation duration must match the card template", e)
    else
      let (r, e') := e.activateCard io card.id now duration
      ((failing "Activation failed: " r).map fun activated =>
        redeemed req card.id activated "Card activated successfully", e')
  | .bindDevice device =>
    if Text.isBlank device || 256 < device.length then (.error "device_id is invalid", e)
    else
      let (r, e') := e.bindDevice io card.id device
      ((failing "Device bind failed: " r).map fun _ =>
        redeemed req card.id ((e'.tables.cards.lookup card.id).getD card)
          ("Device '" ++ device ++ "' bound successfully"), e')
  | .topup code =>
    let (r, e') := e.redeemTopup io card.id code now "card-platform"
    ((failing "Topup failed: " r).bind fun entry =>
      match e'.tables.cards.lookup card.id with
      | some updated => .ok (redeemed req card.id updated
          ("Topup successful: +" ++ toString entry.creditsCharged.val ++ " credits added"))
      | none => .error "Card not found after topup", e')

-- One of those stored the longest ago: which of them is up to the order of the map.
def oldest (redeems : Table String CachedRedeem) : Option String :=
  (redeems.entries.argmin (·.2.storedAt)).map (·.1)

def evict (redeems : Table String CachedRedeem) : Table String CachedRedeem :=
  if maxIdempotencyEntries ≤ redeems.entries.length then
    match oldest redeems with
    | some id => redeems.erase id
    | none    => redeems
  else redeems

def retained (now : Nat) : Table String CachedRedeem :=
  p.redeems.retain fun _ c => now - c.storedAt < idempotencyTtlSecs

def fingerprintOf (req : RedeemCallbackRequest) : String :=
  req.cardCodeOrId ++ "|" ++ req.action.debug

def processRedeem (req : RedeemCallbackRequest) (now : Nat) :
    Except String RedeemCallbackResponse × Platform F :=
  if Text.isBlank req.orderId then (.error "order_id cannot be empty", p)
  else
    let redeems := p.retained now
    match redeems.lookup req.orderId with
    | some cached =>
      if cached.fingerprint ≠ fingerprintOf req then
        (.error "order_id was already used with a different callback", { p with redeems := redeems })
      else (.ok cached.response, { p with redeems := redeems })
    | none =>
      match p.findCardByCodeOrId req.cardCodeOrId with
      | none => (.error ("Card not found for identifier: " ++ req.cardCodeOrId),
          { p with redeems := redeems })
      | some card =>
        match p.redeem io req card now with
        | (.error m, e)     => (.error m, ⟨e, redeems⟩)
        | (.ok response, e) => (.ok response,
            ⟨e, (evict redeems).insert req.orderId ⟨fingerprintOf req, response, now⟩⟩)

end Platform
end Billing
