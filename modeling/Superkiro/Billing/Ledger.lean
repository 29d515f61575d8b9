import Superkiro.Lib.Double
import Superkiro.Lib.Json
import Superkiro.Billing.Card

namespace Billing

inductive LedgerKind
  | usage
  | adjustment
  | topup
  deriving DecidableEq

structure UsageTokens where
  uncachedInputTokens : Nat := 0
  outputTokens        : Nat := 0
  cacheCreationTokens : Nat := 0
  cacheReadTokens     : Nat := 0
  deriving DecidableEq

def maxTokensPerClass : Nat := 10000000

-- Token counts come from upstream and are untrusted.
def UsageTokens.clamped (t : UsageTokens) : UsageTokens where
  uncachedInputTokens := min t.uncachedInputTokens maxTokensPerClass
  outputTokens        := min t.outputTokens maxTokensPerClass
  cacheCreationTokens := min t.cacheCreationTokens maxTokensPerClass
  cacheReadTokens     := min t.cacheReadTokens maxTokensPerClass

structure PricingRates (F : Type) where
  inputRatePerM         : I64
  outputRatePerM        : I64
  cacheCreationRatePerM : I64
  cacheReadRatePerM     : I64
  creditMultiplier      : F
  marginMultiplier      : F

open F64 in
def PricingRates.default [F64 F] : PricingRates F where
  inputRatePerM         := 15000000
  outputRatePerM        := 60000000
  cacheCreationRatePerM := 18750000
  cacheReadRatePerM     := 1500000
  creditMultiplier      := lit 1
  marginMultiplier      := lit 1

open F64 in
-- `tokens as f64 * rate / 1_000_000.0`
def perMillion [F64 F] (tokens : Nat) (rate : F) : F := ofInt tokens * rate / lit 1000000

open F64 in
-- What tokens of each class come to at a rate for each class.
def tokenCost [F64 F] (t : UsageTokens) (input output cacheCreation cacheRead : F) : F :=
  perMillion t.uncachedInputTokens input + perMillion t.outputTokens output +
    perMillion t.cacheCreationTokens cacheCreation + perMillion t.cacheReadTokens cacheRead

open F64 in
def PricingRates.calculateCharge [F64 F] (r : PricingRates F) (t : UsageTokens) : I64 :=
  let base := tokenCost t (ofInt r.inputRatePerM.val) (ofInt r.outputRatePerM.val)
    (ofInt r.cacheCreationRatePerM.val) (ofInt r.cacheReadRatePerM.val)
  ceilNonnegativeToI64 (base * r.creditMultiplier * r.marginMultiplier)

structure LedgerEntry (F : Type) where
  id                    : String
  cardId                : String
  kind                  : LedgerKind
  invocationId          : Option String := none
  exposedModel          : String
  providerId            : String
  targetModel           : String
  inputTokens           : Nat := 0
  outputTokens          : Nat := 0
  cacheCreationTokens   : Nat := 0
  cacheReadTokens       : Nat := 0
  creditsCharged        : I64
  providerCostMicroCny  : I64 := 0
  rateCardVersion       : Option String := none
  tsSecs                : Nat
  operatorId            : Option String := none
  reason                : Option String := none
  creditFaceValueCny    : Option F := none
  detail                : Option Json := none

-- Whether an entry is usage of an invocation.
def LedgerEntry.isUsageOf (e : LedgerEntry F) (id : String) : Bool :=
  e.kind = .usage && e.invocationId = some id

-- What a card event records besides who and why, where older releases kept it as JSON in the
-- target model.
def LedgerEntry.eventDetail (parse : String → Option Json) (e : LedgerEntry F) : Option Json :=
  match e.detail with
  | some d => some d
  | none   => if e.targetModel = e.exposedModel then none
              else (parse e.targetModel).filter Json.isObject

end Billing
