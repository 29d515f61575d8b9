import Superkiro.Lib.Table
import Superkiro.Billing.Ledger

namespace Billing

open F64

inductive Currency
  | usd
  | cny
  deriving DecidableEq

inductive PricingMode
  | costPlus
  | fixed
  | perCall
  deriving DecidableEq

-- Input, output, cache write and cache read prices.
structure Prices (F : Type) where
  input         : F
  output        : F
  cacheCreation : F
  cacheRead     : F
  deriving BEq

namespace Prices

def toList (p : Prices F) : List F := [p.input, p.output, p.cacheCreation, p.cacheRead]

def map (f : F → G) (p : Prices F) : Prices G :=
  ⟨f p.input, f p.output, f p.cacheCreation, f p.cacheRead⟩

end Prices

structure OfficialPrice (F : Type) where
  usdPerM       : Prices F
  note          : Option String := none
  updatedAtSecs : Nat := 0

structure RouteCost (F : Type) where
  costMultiplier : Option F := none
  basisUsdPerM   : Option (Prices F) := none

structure BillingSettings (F : Type) where
  creditFaceValueCny       : F
  legacyCreditFaceValueCny : Option F := none
  usdCnyRate               : F
  rateUpdatedAtSecs        : Nat := 0
  officialUsdCny?          : Option F := none
  defaultPriceMultiplier   : Option F := none
  defaultCostMultiplier    : Option F := none
  providerCostMultipliers  : Option (Table String F) := none
  officialPrices           : Option (Table String (OfficialPrice F)) := none
  routeCosts               : Option (Table String (RouteCost F)) := none

-- A route is named `<provider>/<upstream model>`.
def routeName (provider target : String) : String := provider ++ "/" ++ target

namespace BillingSettings

variable [F64 F] (s : BillingSettings F)

def default : BillingSettings F where
  creditFaceValueCny := lit (1 / 100)
  usdCnyRate         := lit (29 / 4)

def officialUsdCny : F := s.officialUsdCny?.getD (lit 1)

-- Only what is kept of a map, and nothing at all when that is empty.
def kept (map : Option (Table String α)) (keep : String → Bool) (copy : α → α) :
    Option (Table String α) :=
  let kept := ((map.getD ∅).retain fun k _ => keep k).mapValues fun _ => copy
  if kept.entries.isEmpty then none else some kept

def providerServes (routes : List (String × String)) (provider : String) : Bool :=
  routes.isEmpty || routes.any (·.1 = provider)

def targetServes (routes : List (String × String)) (model target : String) : Bool :=
  if routes.isEmpty then target = model else routes.any (·.2 = target)

def routeServes (routes : List (String × String)) (model route : String) : Bool :=
  if routes.isEmpty then
    match Text.splitOnce '/' route with
    | some (_, target) => target = model
    | none             => false
  else
    routes.any fun (provider, target) => route = routeName provider target

-- What settling a request served by one of the routes reads.
def forRoutes (routes : List (String × String)) (model : String) : BillingSettings F where
  creditFaceValueCny       := s.creditFaceValueCny
  legacyCreditFaceValueCny := s.legacyCreditFaceValueCny
  usdCnyRate               := s.usdCnyRate
  rateUpdatedAtSecs        := s.rateUpdatedAtSecs
  officialUsdCny?          := s.officialUsdCny?
  defaultPriceMultiplier   := none
  defaultCostMultiplier    := s.defaultCostMultiplier
  providerCostMultipliers  := kept s.providerCostMultipliers (providerServes routes) id
  officialPrices           :=
    kept s.officialPrices (targetServes routes model) fun p => { p with note := none }
  routeCosts               := kept s.routeCosts (routeServes routes model) id

-- What a provider bills for tokens of its upstream model, from official prices. Unknown when the
-- basis or the multiplier is.
def officialCostMicroCny (provider target : String) (t : UsageTokens) : Option I64 := do
  let route := s.routeCosts.bind (·.lookup (routeName provider target))
  let basis ← (route.bind (·.basisUsdPerM)).orElse fun _ =>
    (s.officialPrices.bind (·.lookup target)).map (·.usdPerM)
  let multiplier ← ((route.bind (·.costMultiplier)).orElse fun _ =>
    s.providerCostMultipliers.bind (·.lookup provider)).orElse fun _ => s.defaultCostMultiplier
  let p := basis.map fun usd => usd * multiplier * s.officialUsdCny
  let cny := tokenCost t p.input p.output p.cacheCreation p.cacheRead
  return ceilNonnegativeToI64 (F64.round (cny * lit 1000000))

end BillingSettings

structure OfficialPricing (F : Type) where
  usdPerM            : Prices F
  priceMultiplier    : F
  costMultiplier     : F
  costBasisUsdPerM   : Option (Prices F) := none
  usdCny             : F
  creditFaceValueCny : F

structure RateCard where
  id            : String
  name          : String
  createdAtSecs : Nat
  deriving DecidableEq

structure RateCardVersion (F : Type) where
  id                : String
  rateCardId        : String
  model             : String
  currency          : Currency
  pricingMode       : PricingMode
  pricePerM         : Prices F
  fixedCreditPerM   : Prices I64
  perCallCredit     : I64
  marginMultiplier  : F
  effectiveFromSecs : Nat
  official          : Option (OfficialPricing F) := none

namespace RateCardVersion

variable [F64 F] (v : RateCardVersion F)

-- An amount in the version's currency, in CNY.
def toCny (s : BillingSettings F) (amount : F) : F :=
  match v.currency with
  | .usd => amount * s.usdCnyRate
  | .cny => amount

def faceValue (s : BillingSettings F) : F :=
  if lt (lit 0) s.creditFaceValueCny then s.creditFaceValueCny else lit (1 / 100)

def calculateCostMicroCny (t : UsageTokens) (s : BillingSettings F) : I64 :=
  let p := v.pricePerM
  let cny := v.toCny s (tokenCost t p.input p.output p.cacheCreation p.cacheRead)
  ceilNonnegativeToI64 (F64.round (cny * lit 1000000))

-- Micro-credits to charge under the version's pricing mode.
def calculateCharge (t : UsageTokens) (groupMargin modelMultiplier : F) (s : BillingSettings F) :
    I64 :=
  let multipliers := v.marginMultiplier * groupMargin * modelMultiplier
  match v.pricingMode with
  | .costPlus =>
    let p := v.pricePerM
    let cny := v.toCny s (tokenCost t p.input p.output p.cacheCreation p.cacheRead)
    ceilNonnegativeToI64 (cny * multipliers / faceValue s * ofInt microCreditsPerCredit)
  | .fixed =>
    let p := v.fixedCreditPerM.map fun c => (ofInt c.val : F)
    let base := tokenCost t p.input p.output p.cacheCreation p.cacheRead
    ceilNonnegativeToI64 (base * multipliers)
  | .perCall => ceilNonnegativeToI64 (ofInt v.perCallCredit.val * multipliers)

def maxI64 (a b : I64) : I64 := if a ≤ b then b else a

-- The estimate can't know how input will split between the classes, so it reserves at the most
-- expensive of the three.
def calculateReserveAmount (estimatedInput maxOutput : Nat) (groupMargin modelMultiplier : F)
    (s : BillingSettings F) : I64 :=
  let multipliers := v.marginMultiplier * groupMargin * modelMultiplier
  match v.pricingMode with
  | .costPlus =>
    let p := v.pricePerM
    let inputPrice := fmax (fmax p.input p.cacheCreation) p.cacheRead
    let total := perMillion estimatedInput inputPrice + perMillion maxOutput p.output
    ceilNonnegativeToI64
      (v.toCny s total * multipliers / faceValue s * ofInt microCreditsPerCredit)
  | .fixed =>
    let p := v.fixedCreditPerM
    let inputCredit := maxI64 (maxI64 p.input p.cacheCreation) p.cacheRead
    let base := perMillion estimatedInput (ofInt inputCredit.val : F) +
      perMillion maxOutput (ofInt p.output.val)
    ceilNonnegativeToI64 (base * multipliers)
  | .perCall => ceilNonnegativeToI64 (ofInt v.perCallCredit.val * multipliers)

end RateCardVersion
end Billing
