import Superkiro.Billing.Engine

namespace Billing

open F64 Except Host

section

variable [F64 F]

-- The group's rate card and margin, where a card's group is unknown those of the default.
def Tables.rateCardOf (t : Tables F) (card : Card) : String :=
  ((t.groups.lookup card.groupId).map (·.rateCardId)).getD "default"

def Tables.marginOf (t : Tables F) (card : Card) : F :=
  ((t.groups.lookup card.groupId).map (·.marginMultiplier)).getD (lit 1)

def I64.toF (x : I64) : F := ofInt x.val

-- `(amount as f64 * multiplier).ceil() as i64`
def surcharged (amount : I64) (multiplier : F) : I64 := toI64 (ceil (I64.toF amount * multiplier))

-- What a request is reserved at: the amount, the price version and what else is locked.
structure Quote (F : Type) where
  amount  : I64
  version : Option String
  pricing : Option (LockedPricing F)

namespace Tables

variable (t : Tables F)

def quote (card : Card) (p : ReservationEstimateParams F) (now : Nat) : Result (Quote F) :=
  match p.model with
  | none       => pure ⟨p.calculateReserveAmount, none, none⟩
  | some model => do
    let map := t.findModelMap card.groupId model
    let multiplier := (map.map (·.creditMultiplier)).getD p.creditMultiplier
    let v ← ofOption (t.resolvePrice (t.rateCardOf card) (priceNames model map) now)
      (.modelNotPriced model)
    let amount := v.calculateReserveAmount p.estimatedInputTokens p.maxOutputTokens
      (t.marginOf card) multiplier t.settings
    let routes := (map.map (·.routes)).getD []
    let pricing : LockedPricing F := {
      groupMargin       := t.marginOf card
      modelMultiplier   := multiplier
      billingMultiplier := p.billingMultiplier
      settings          := t.settings.forRoutes routes model
      routes            := routes.map fun (provider, target) => routeName provider target
    }
    return ⟨surcharged amount p.billingMultiplier, some v.id, some pricing⟩

-- An invocation can be reserved that no request is or was served under, or whose hold was returned.
def checkNotReserved (id : String) : Result Unit :=
  match t.reservations.lookup id with
  | some r => ensure (r.state = .released && !decide (id ∈ t.pendingSettlements))
      (.duplicateInvocation id)
  | none   => pure ()

def checkNotTemplate (id : String) : Result Unit := do
  ensure (t.archivedLedgerSummary.templateInvocationsComplete || t.archivedLedgerReceipts.isEmpty)
    (.invalidState "template invocation index requires verified archive migration on load")
  ensure (!decide (id ∈ t.archivedLedgerSummary.usageInvocationIds)) (.duplicateInvocation id)

def holdWith (card : Card) (r : CreditReservation F) : Tables F :=
  { t with
    cards := t.cards.insert r.cardId
      { card with creditReserved := card.creditReserved.satAdd r.reservedMicroCredits }
    reservations := t.reservations.insert r.invocationId r }

end Tables

def positiveNeed (x : I64) : I64 := if x < 1 then 1 else x

def checkNoDebt (card : Card) (needed : I64) : Result Unit :=
  ensure (card.outstandingDebt ≤ 0) (.card (.insufficientCredit 0 (positiveNeed needed)))

def checkConcurrency (current max : Nat) : Result Unit :=
  ensure (current < max) (.concurrencyLimitExceeded current max)

end

namespace Engine

variable [F64 F] [Host F] (e : Engine F) (io : Io)

-- Requests of a card in flight, and template waits but an excluded one.
def activeCardConcurrency (cardId : String) (excludeTemplate : Option String) : Nat :=
  (e.tables.heldBy cardId).length +
    (e.templateWaits.filter fun (card, id) => card = cardId ∧ excludeTemplate ≠ some id).card

-- Whether a hold can be taken, and the card and reservation if it can.
def newReservation (cardId id : String) (p : ReservationEstimateParams F) (now ttl : Nat) :
    Result (Card × CreditReservation F) := do
  let t := e.tables
  ensure e.persistenceReady
    (.persistence (e.lastPersistenceError.getD "persistence engine is unhealthy"))
  ensure (!decide ((cardId, id) ∈ e.templateWaits)) (.duplicateInvocation id)
  t.checkNotReserved id
  t.checkNotTemplate id
  let card ← ofOption (t.cards.lookup cardId) (.cardNotFound cardId)
  let q ← t.quote card p now
  ensure (0 ≤ q.amount) (.invalidState "calculated reservation amount is negative")
  checkConcurrency (e.activeCardConcurrency cardId none) card.maxConcurrency
  t.checkQuota card q.amount now
  checkNoDebt card q.amount
  liftCard (card.checkCanReserve q.amount now)
  let r : CreditReservation F := .new ("res-" ++ id) cardId id q.amount now ttl
  return (card, { r with rateCardVersion := q.version, pricing := q.pricing })

-- A hold is taken in memory only. The next commit saves it with everything else.
def reserve (cardId id : String) (p : ReservationEstimateParams F) (now ttl : Nat) :
    Result (CreditReservation F) × Engine F :=
  match e.newReservation cardId id p now ttl with
  | .error err      => (.error err, e)
  | .ok (card, r)   => (.ok r, { e with tables := e.tables.holdWith card r })

end Engine

section

variable [F64 F]

def Tables.extendWith (t : Tables F) (id : String) (card : Card) (reserved : I64)
    (r : CreditReservation F) : Tables F :=
  { t with
    cards        := t.cards.insert card.id { card with creditReserved := reserved }
    reservations := t.reservations.insert id r }

def Tables.extendReservation (t : Tables F) (id : String) (amount : I64) (now : Nat) :
    Result (Txn F (CreditReservation F)) := do
  let r ← ofOption (t.reservations.lookup id) (.reservationNotFound id)
  ensure (r.state = .held) (.invalidState "only a held reservation can be extended")
  ensure (r.reservedMicroCredits ≤ amount) (.invalidState "extension cannot reduce reservation")
  let extra := amount.satSub r.reservedMicroCredits
  let card ← ofOption (t.cards.lookup r.cardId) (.cardNotFound r.cardId)
  t.checkQuota card extra now
  liftCard (card.checkCanReserve extra now)
  checkNoDebt card extra
  let reserved ← ofOption (card.creditReserved.checkedAdd extra)
    (.invalidState "reservation amount overflow")
  let r := { r with reservedMicroCredits := amount }
  return .write (t.extendWith id card reserved r) (·.extendWith id card reserved r) r

-- How a request is charged and costed when it settles.
structure SettlePricing (F : Type) where
  groupMargin       : F
  modelMultiplier   : F
  billingMultiplier : F
  settings          : BillingSettings F
  routeSettings     : Option (BillingSettings F)

namespace Tables

variable (t : Tables F)

def settleVersion (card : Card) (map : Option (ModelMap F)) (r : CreditReservation F)
    (exposed target : String) : Option (RateCardVersion F) :=
  match r.rateCardVersion with
  | some id => t.getRateCardVersion id
  | none    =>
    t.resolvePrice (t.rateCardOf card) (pushNew (priceNames exposed map) target) r.createdAtSecs

-- A request is charged and costed at what it was reserved at. Where the route that served it
-- couldn't serve it then, it is costed at the settings in force.
def settlePricing (card : Card) (map : Option (ModelMap F)) (r : CreditReservation F)
    (served : String) : SettlePricing F :=
  match r.pricing with
  | some locked => {
      groupMargin       := locked.groupMargin
      modelMultiplier   := locked.modelMultiplier
      billingMultiplier := locked.billingMultiplier
      settings          := locked.settings
      routeSettings     :=
        if !locked.routes.isEmpty && !locked.routes.contains served then some t.settings else none
    }
  | none => {
      groupMargin       := t.marginOf card
      modelMultiplier   := (map.map (·.creditMultiplier)).getD (lit 1)
      billingMultiplier := lit 1
      settings          := t.settings
      routeSettings     := none
    }

-- The cost assumed where nothing is known of it.
def estimatedCost (tokens : UsageTokens) : I64 :=
  ceilNonnegativeToI64 <|
    ((ofInt tokens.uncachedInputTokens : F) * lit 15 + ofInt tokens.cacheCreationTokens * lit 15 +
      ofInt tokens.cacheReadTokens * lit (15 / 4) + ofInt tokens.outputTokens * lit 60) /
      lit 1000000 * lit 10000

def chargeOf (version : Option (RateCardVersion F)) (p : SettlePricing F) (tokens : UsageTokens)
    (exposed : String) : I64 :=
  let amount := match version with
    | some v => v.calculateCharge tokens p.groupMargin p.modelMultiplier p.settings
    | none   => ((t.rates.lookup exposed).getD .default).calculateCharge tokens
  surcharged amount p.billingMultiplier

-- The price version a request's cost is taken from, for want of an official one: the served
-- route's, for the primary target the one it is charged at, the target's, or the catch-all.
def costVersion (card : Card) (map : Option (ModelMap F)) (version : Option (RateCardVersion F))
    (createdAt : Nat) (provider target : String) : Option (RateCardVersion F) :=
  let latest m := t.latest (t.rateCardOf card) m createdAt
  let ofPrimary :=
    match map.filter fun m => m.targetProviderId = provider && m.targetModel = target with
    | some _ => version
    | none   => none
  (((latest (routeName provider target)).orElse fun _ => ofPrimary).orElse fun _ =>
    latest target).orElse fun _ => latest "*"

def costOf (card : Card) (map : Option (ModelMap F)) (version : Option (RateCardVersion F))
    (p : SettlePricing F) (createdAt : Nat) (tokens : UsageTokens) (provider target : String) :
    I64 × String :=
  match (p.routeSettings.getD p.settings).officialCostMicroCny provider target tokens with
  | some cost => (cost, "provider_cost:official=" ++ routeName provider target)
  | none      =>
    match t.costVersion card map version createdAt provider target with
    | some v => (v.calculateCostMicroCny tokens p.settings,
        "provider_cost:rate_card_version=" ++ v.id)
    | none   => ((version.map (·.calculateCostMicroCny tokens p.settings)).getD
        (estimatedCost (F := F) tokens), "provider_cost:estimated_missing_target_rate")

-- The bill of a reservation for what its request used.
def settlementEntry (card : Card) (r : CreditReservation F) (id : String) (tokens : UsageTokens)
    (exposed provider target : String) (now : Nat) : Result (LedgerEntry F) := do
  let map := t.findModelMap card.groupId exposed
  let version := t.settleVersion card map r exposed target
  let p := t.settlePricing card map r (routeName provider target)
  let charge := t.chargeOf version p tokens exposed
  let (cost, source) := t.costOf card map version p r.createdAtSecs tokens provider target
  ensure (0 ≤ charge) (.invalidState "calculated settlement charge is negative")
  return {
    id                   := "led-" ++ id
    cardId               := card.id
    kind                 := .usage
    invocationId         := some id
    exposedModel         := exposed
    providerId           := provider
    targetModel          := target
    inputTokens          := satAddU64 (satAddU64 tokens.uncachedInputTokens tokens.cacheReadTokens)
      tokens.cacheCreationTokens
    outputTokens         := tokens.outputTokens
    cacheCreationTokens  := tokens.cacheCreationTokens
    cacheReadTokens      := tokens.cacheReadTokens
    creditsCharged       := charge.minOf maxSettlementMicroCredits
    providerCostMicroCny := cost
    rateCardVersion      := version.map (·.id)
    tsSecs               := now
    reason               := some source
    creditFaceValueCny   := some p.settings.creditFaceValueCny
  }

-- The bill of a held invocation, before anything is changed.
def priceSettlement (id : String) (tokens : UsageTokens) (exposed provider target : String)
    (now : Nat) : Result (PendingSettlement F) := do
  let r ← ofOption (t.reservations.lookup id) (.reservationNotFound id)
  ensure (r.state ≠ .settled) (.duplicateInvocation id)
  ensure (r.state ≠ .released) (.reservationAlreadyReleased id)
  let card ← ofOption (t.cards.lookup r.cardId) (.cardNotFound r.cardId)
  let entry ← t.settlementEntry card r id tokens exposed provider target now
  return ⟨entry, tokens⟩

def withPending (id : String) (p : PendingSettlement F) : Tables F :=
  { t with pendingSettlements := t.pendingSettlements.insert id p }

-- The attempts traced for an invocation.
def attemptChain (id : String) : List AttemptRecord :=
  (t.traces.filter (·.invocationId = id)).flatMap (·.attemptChain)

-- The key that answered: the last of the serving provider that succeeded.
def keyDetail (id provider : String) : Option Json :=
  ((t.attemptChain id).reverse.find? fun a =>
    a.success && a.providerId = provider && !a.keyId.isEmpty).map fun a =>
      .obj [("keyId", .str a.keyId)]

def settledTrace (id : String) (entry : LedgerEntry F) : RequestTrace F where
  id                   := "trace-" ++ id
  cardId               := entry.cardId
  ts                   := entry.tsSecs
  invocationId         := id
  exposedModel         := entry.exposedModel
  status               := .success
  providerId           := some entry.providerId
  inputTokens          := entry.inputTokens
  outputTokens         := entry.outputTokens
  creditsCharged       := entry.creditsCharged
  providerCostMicroCny := entry.providerCostMicroCny
  attemptChain         := t.attemptChain id

-- The last of the traces.
def retainTraces (traces : List (RequestTrace F)) : List (RequestTrace F) :=
  traces.drop (traces.length - maxRetainedTraces)

-- The tables after the debit of a bill: the hold returned, the card charged, the entry and the trace
-- recorded.
def debit (id : String) (r : CreditReservation F) (card : Card) (entry : LedgerEntry F) :
    Tables F :=
  let charged := { card with
    creditUsed     := card.creditUsed.satAdd entry.creditsCharged
    creditReserved := card.creditReserved.satSub r.reservedMicroCredits }
  let addedDebt := charged.outstandingDebt.satSub card.outstandingDebt
  { t with
    cards              := t.cards.insert entry.cardId charged
    unpaidLedger       :=
      if 0 < addedDebt then t.unpaidLedger ++ [⟨id, card.id, addedDebt, entry.tsSecs⟩]
      else t.unpaidLedger
    reservations       := t.reservations.insert id (r.finish .settled)
    pendingSettlements := t.pendingSettlements.erase id
    ledger             := t.ledger ++ [entry]
    traces             :=
      retainTraces (t.traces.filter (·.invocationId ≠ id) ++ [t.settledTrace id entry]) }

-- The entry a pending settlement is debited with.
def finalEntry (id : String) (p : PendingSettlement F) : LedgerEntry F :=
  { p.entry with
    creditsCharged := p.entry.creditsCharged.minOf maxSettlementMicroCredits
    detail         := p.entry.detail.orElse fun _ => t.keyDetail id p.entry.providerId }

def applyPendingSettlement (id : String) (p : PendingSettlement F) :
    Result (Tables F × LedgerEntry F) := do
  let r ← ofOption (t.reservations.lookup id) (.reservationNotFound id)
  ensure (r.state = .held) (.invalidState "pending reservation is not Held")
  let entry := t.finalEntry id p
  ensure (entry.invocationId = some id && entry.cardId = r.cardId && entry.kind = .usage &&
    0 ≤ entry.creditsCharged && 0 ≤ entry.providerCostMicroCny)
    (.invalidState "invalid pending settlement identity or amount")
  let card ← ofOption (t.cards.lookup entry.cardId) (.cardNotFound entry.cardId)
  return (t.debit id r card entry, entry)

-- What a saved settlement changed.
def publishSettlement (candidate live : Tables F) : Tables F :=
  { live with
    cards              := candidate.cards
    reservations       := candidate.reservations
    ledger             := candidate.ledger
    unpaidLedger       := candidate.unpaidLedger
    pendingSettlements := candidate.pendingSettlements
    traces             := candidate.traces }

def completePendingSettlement (id : String) (p : PendingSettlement F) :
    Result (Txn F (LedgerEntry F)) := do
  let (candidate, entry) ← t.applyPendingSettlement id p
  return .write candidate (publishSettlement candidate) entry

-- A bill that fails its checks is saved undebited.
def settleCandidate (id : String) (p : PendingSettlement F) :
    Tables F × Result (LedgerEntry F) :=
  let pending := t.withPending id p
  match pending.applyPendingSettlement id p with
  | .ok (candidate, entry) => (candidate, .ok entry)
  | .error err             => (pending, .error err)

def retryPendingSettlement (id : String) : Result (Txn F (LedgerEntry F)) :=
  match t.ledger.find? (·.isUsageOf id) with
  | some entry => pure (.answer entry)
  | none       => do
    let p ← ofOption (t.pendingSettlements.lookup id)
      (.invalidState "no pending settlement for invocation")
    t.completePendingSettlement id p

def replays (p : PendingSettlement F) (tokens : UsageTokens) (exposed provider target : String) :
    Bool :=
  p.tokens.clamped = tokens && p.entry.exposedModel = exposed && p.entry.providerId = provider &&
  p.entry.targetModel = target

-- A returned hold.
def releaseWith (id : String) (r : CreditReservation F) : Tables F :=
  { t with
    reservations := t.reservations.insert id (r.finish .released)
    cards        := t.cards.update r.cardId (·.refunded r.reservedMicroCredits) }

end Tables
end

namespace Engine

variable [F64 F] [Host F] (e : Engine F) (io : Io)

def extendReservation (id : String) (amount : I64) (now : Nat) :
    Result (CreditReservation F) × Engine F :=
  e.transact io (e.tables.extendReservation id amount now)

def retryPendingSettlement (id : String) : Result (LedgerEntry F) × Engine F :=
  e.transact io (e.tables.retryPendingSettlement id)

-- A bill that can't be saved is kept in memory, never released or reclaimed.
def settleNew (id : String) (tokens : UsageTokens) (exposed provider target : String) (now : Nat) :
    Result (LedgerEntry F) × Engine F :=
  match e.tables.priceSettlement id tokens exposed provider target now with
  | .error err => (.error err, e)
  | .ok p      =>
    let (candidate, completed) := e.tables.settleCandidate id p
    match e.commit io candidate (Tables.publishSettlement candidate) with
    | (.ok _, e')      => (completed, e')
    | (.error err, e') => (.error err, { e' with tables := e'.tables.withPending id p })

def settle (id : String) (tokens : UsageTokens) (exposed provider target : String) (now : Nat) :
    Result (LedgerEntry F) × Engine F :=
  let tokens := tokens.clamped
  match e.tables.pendingSettlements.lookup id with
  | none   => e.settleNew io id tokens exposed provider target now
  | some p =>
    if Tables.replays p tokens exposed provider target then
      e.transact io (e.tables.completePendingSettlement id p)
    else (.error (.invalidState "pending settlement replay conflict"), e)

-- A hold is returned in memory only.
def release (id : String) : Result Unit × Engine F :=
  let t := e.tables
  if id ∈ t.pendingSettlements then
    (.error (.invalidState "consumed reservation is pending settlement, not refundable"), e)
  else
    match t.reservations.lookup id with
    | none   => (.ok (), e)
    | some r =>
      if r.state = .held then (.ok (), { e with tables := t.releaseWith id r }) else (.ok (), e)

end Engine

-- What the janitor does to expired orphans and to records it no longer needs to keep.
namespace Tables

variable (t : Tables F) (active : Table String Nat) (now : Nat)

def isOrphan (r : CreditReservation F) : Bool :=
  r.isExpired now && !decide (r.invocationId ∈ active) &&
  !decide (r.invocationId ∈ t.pendingSettlements)

def orphans : List (CreditReservation F) := t.reservations.values.filter (t.isOrphan active now)

def reclaimFrom (cards : Table String Card) (r : CreditReservation F) : Table String Card :=
  cards.update r.cardId (·.refunded r.reservedMicroCredits)

def reclaim : Tables F :=
  { t with
    cards        := (t.orphans active now).foldl reclaimFrom t.cards
    reservations := t.reservations.mapValues fun _ r =>
      if t.isOrphan active now r then r.finish .released else r }

def isPrunable (r : CreditReservation F) : Bool :=
  r.state ≠ .held && r.createdAtSecs < now - terminalReservationRetentionSecs &&
  !decide (r.invocationId ∈ t.pendingSettlements)

def pruneIds : List String :=
  (t.reservations.values.filter (t.isPrunable now)).map (·.invocationId)

def prune : Tables F :=
  { t with reservations := (t.pruneIds now).foldl (fun rs id => rs.erase id) t.reservations }

def finishReleased (rs : Table String (CreditReservation F)) (r : CreditReservation F) :
    Table String (CreditReservation F) :=
  rs.mapValues fun id live => if id = r.invocationId then live.finish .released else live

-- How the janitor's changes are published: the affected cards, the released and the pruned
-- reservations.
def publishJanitor (live : Tables F) : Tables F :=
  let orphans := t.orphans active now
  let reclaimed := t.reclaim active now
  { live with
    cards := orphans.foldl (fun cards r => cards.copy reclaimed.cards r.cardId) live.cards
    reservations := (reclaimed.pruneIds now).foldl (fun rs id => rs.erase id)
      (orphans.foldl finishReleased live.reservations) }

def runJanitor : Result (Txn F Nat) :=
  let orphans := t.orphans active now
  let reclaimed := t.reclaim active now
  if orphans.isEmpty && (reclaimed.pruneIds now).isEmpty then pure (.answer 0)
  else pure (.write (reclaimed.prune now) (t.publishJanitor active now) orphans.length)

end Tables

def Engine.runJanitor [F64 F] [Host F] (e : Engine F) (io : Io) (now : Nat) : Nat × Engine F :=
  match e.transact io (e.tables.runJanitor e.activeReservations now) with
  | (.ok n, e')    => (n, e')
  | (.error _, e') => (0, e')

end Billing
