import Superkiro.Billing.Catalog

namespace Billing

open F64

inductive ReservationState
  | held
  | settled
  | released
  deriving DecidableEq

structure ReservationEstimateParams (F : Type) where
  estimatedInputTokens : Nat
  maxOutputTokens      : Nat
  inputRatePerM        : I64 := 15000000
  outputRatePerM       : I64 := 60000000
  creditMultiplier     : F
  marginMultiplier     : F
  billingMultiplier    : F
  model                : Option String := none

def ReservationEstimateParams.calculateReserveAmount [F64 F] (p : ReservationEstimateParams F) :
    I64 :=
  let inputCost := perMillion p.estimatedInputTokens (ofInt p.inputRatePerM.val : F)
  let outputCost := perMillion p.maxOutputTokens (ofInt p.outputRatePerM.val : F)
  ceilNonnegativeToI64 ((inputCost + outputCost) * p.creditMultiplier * p.marginMultiplier)

-- What a request is charged and costed with besides its price version, captured when it is
-- reserved.
structure LockedPricing (F : Type) where
  groupMargin       : F
  modelMultiplier   : F
  billingMultiplier : F
  settings          : BillingSettings F
  routes            : List String := []

structure CreditReservation (F : Type) where
  id                   : String
  cardId               : String
  invocationId         : String
  reservedMicroCredits : I64
  state                : ReservationState := .held
  createdAtSecs        : Nat
  expiresAtSecs        : Nat
  rateCardVersion      : Option String := none
  pricing              : Option (LockedPricing F) := none

namespace CreditReservation

def new (id cardId invocationId : String) (reserved : I64) (now ttl : Nat) :
    CreditReservation F where
  id                   := id
  cardId               := cardId
  invocationId         := invocationId
  reservedMicroCredits := reserved
  createdAtSecs        := now
  expiresAtSecs        := satAddU64 now ttl

-- Settled or released. The record is only kept to refuse a replay of its invocation.
def finish (r : CreditReservation F) (state : ReservationState) : CreditReservation F :=
  { r with state := state, pricing := none }

def isExpired (r : CreditReservation F) (now : Nat) : Bool :=
  r.state = .held && now ≥ r.expiresAtSecs

-- What the reservation holds of a card's credits.
def hold (cardId : String) (r : CreditReservation F) : Int :=
  if r.cardId = cardId ∧ r.state = .held then r.reservedMicroCredits.val else 0

end CreditReservation

-- A consumed request, priced once and retained until its debit commits.
structure PendingSettlement (F : Type) where
  entry  : LedgerEntry F
  tokens : UsageTokens

-- Historical shortfall when actual usage exhausted prepaid credit.
structure UnpaidCharge where
  invocationId       : String
  cardId             : String
  amountMicroCredits : I64
  tsSecs             : Nat
  deriving DecidableEq

structure AttemptRecord where
  keyId      : String
  providerId : String
  success    : Bool
  error      : Option String
  latencyMs  : Nat
  deriving DecidableEq

inductive TraceStatus
  | success
  | error
  | clientAborted
  | inProgress
  deriving DecidableEq

structure RequestTrace (F : Type) where
  id                    : String
  cardId                : String
  ts                    : Nat
  invocationId          : String
  exposedModel          : String
  status                : TraceStatus
  ttftMs                : Option Nat := none
  tokensPerSecond       : Option F := none
  errorClass            : Option String := none
  providerId            : Option String
  inputTokens           : Nat
  outputTokens          : Nat
  creditsCharged        : I64
  providerCostMicroCny  : I64
  neededMicroCredits    : Option I64 := none
  availableMicroCredits : Option I64 := none
  attemptChain          : List AttemptRecord
  repeats               : Nat := 0
  lastSeenSecs          : Option Nat := none

structure TopupCode where
  id                    : String
  codeHash              : String
  creditAmount          : I64
  durationExtensionSecs : Nat
  isUsed                : Bool := false
  usedByCardId          : Option String := none
  usedAt                : Option Nat := none
  createdAt             : Nat
  deriving DecidableEq

end Billing
