import Superkiro.Billing.RateCard

namespace Billing

open F64

inductive ProviderBindingMode
  | shared
  | dedicated
  deriving DecidableEq

structure Group (F : Type) where
  id                  : String
  name                : String
  issuanceEnabled     : Bool := true
  providerBindingMode : ProviderBindingMode := .shared
  rateCardId          : String := "default"
  marginMultiplier    : F
  virtualPlanName     : String
  virtualUsageLimit   : F
  systemPromptPrefix  : Option String := none

namespace Group

def proPlus [F64 F] (id name : String) : Group F where
  id                := id
  name              := name
  marginMultiplier  := lit 1
  virtualPlanName   := "KIRO PRO+"
  virtualUsageLimit := lit 50000

def canAccessProvider (g : Group F) (providerGroup : Option String) : Bool :=
  match g.providerBindingMode with
  | .dedicated => providerGroup = some g.id
  | .shared    => providerGroup = none

end Group

structure FallbackTarget where
  providerId  : String
  targetModel : String
  deriving DecidableEq

-- An exposed model and the upstream models that serve it.
structure ModelMap (F : Type) where
  id                          : String
  groupId                     : String
  exposedModelId              : String
  targetProviderId            : String
  targetModel                 : String
  contextWindow               : Nat := 200000
  maxOutput                   : Nat := 64000
  creditMultiplier            : F
  thinkingSurchargeMultiplier : Option F := none
  thinkingSurchargeThreshold  : Option String := none
  contextSurchargeMultiplier  : Option F := none
  contextSurchargeThreshold   : Option Nat := none
  visible                     : Bool := true
  aliases                     : List String := []
  fallbackChain               : List FallbackTarget := []
  displayName                 : Option String := none
  description                 : Option String := none
  rateMultiplier              : Option F := none
  retired                     : Bool := false

namespace ModelMap

def isListed (m : ModelMap F) : Bool := m.visible && !m.retired

def matchesModel (m : ModelMap F) (requested : String) : Bool :=
  m.exposedModelId = requested || m.aliases.any (· = requested)

def fullTargetChain (m : ModelMap F) : List FallbackTarget :=
  ⟨m.targetProviderId, m.targetModel⟩ :: m.fallbackChain

-- The routes that may serve a request of the model.
def routes (m : ModelMap F) : List (String × String) :=
  m.fullTargetChain.map fun t => (t.providerId, t.targetModel)

def names (m : ModelMap F) : List String := m.exposedModelId :: m.aliases

end ModelMap

-- What a request may name as its model, and what a publication may expose.
def validModelId (id : String) : Bool :=
  1 ≤ Text.len id && Text.len id ≤ 128 && id.toList.all fun c =>
    Text.isAsciiAlphanumeric c || c == '-' || c == '_' || c == '.' || c == ':' || c == '/'

structure Provider where
  id      : String
  enabled : Bool := true
  groupId : Option String := none
  deriving DecidableEq

structure ProviderKey where
  id              : String
  providerId      : String
  allowedModels   : Option (List String) := none
  apiKey          : String := ""
  apiKeyEncrypted : Option String := none
  enabled         : Bool := true
  deriving DecidableEq

def ProviderKey.supportsModel (k : ProviderKey) (model : String) : Bool :=
  match k.allowedModels with
  | none        => true
  | some models => models.any (· = model)

structure PlanPrice where
  templateId    : String
  name          : String
  points        : I64
  priceMicroCny : I64
  kiroPlanType  : String

def planPrices : List PlanPrice := [
  ⟨"tier-1000", "PRO", 1000, 30000000, "PRO"⟩,
  ⟨"tier-2000", "PRO+", 2000, 55000000, "PRO_PLUS"⟩,
  ⟨"tier-5000", "PRO Max", 5000, 130000000, "PRO_MAX"⟩,
  ⟨"tier-10000", "Power", 10000, 250000000, "POWER"⟩
]

def kiroPlanTypes : List String := ["PRO", "PRO_PLUS", "PRO_MAX", "POWER", "CUSTOM"]

def maxPlans : Nat := 100

structure Plan (F : Type) where
  id             : String
  name           : String
  points         : I64
  priceCny       : F
  validityDays   : Nat
  maxDevices     : Nat
  concurrency    : Nat
  defaultGroupId : String
  kiroPlanType   : String
  onSale         : Bool
  sortOrder      : Int

namespace Plan

variable [F64 F] (p : Plan F)

def priceMicroCny : I64 := toI64 (F64.round (p.priceCny * lit 1000000))

-- What a card issued from the plan keeps.
def snapshot : IssuedPlan where
  id            := p.id
  name          := p.name
  points        := p.points
  priceMicroCny := p.priceMicroCny
  paidMicroCny  := none
  validityDays  := p.validityDays
  maxDevices    := p.maxDevices
  concurrency   := p.concurrency
  kiroPlanType  := p.kiroPlanType

def isPlanIdChar (c : Char) : Bool := ('a' ≤ c && c ≤ 'z') || ('0' ≤ c && c ≤ '9') || c == '-'

-- Which of the plan's own fields is out of bounds, if any.
def problem : Option String :=
  let price := p.priceCny * lit 100
  if !(1 ≤ Text.len p.id && Text.len p.id ≤ 64) || !p.id.toList.all isPlanIdChar then
    some "Plan IDs are 1-64 of a-z, 0-9 and -"
  else if Text.isBlank p.name || Text.len p.name > 32 || p.name.toList.any Text.isControl then
    some "Plan names are 1-32 bytes"
  else if !(1 ≤ p.points ∧ p.points ≤ 10000000) then
    some "Plan points must be 1-10000000"
  else if !within 0 100000 p.priceCny ||
      lt (lit (1 / 1000000)) (fabs (F64.round price - price)) then
    some "Plan prices must be 0-100000 yuan, to the fen"
  else if !(1 ≤ p.validityDays ∧ p.validityDays ≤ 3650) then
    some "Plan validity must be 1-3650 days"
  else if p.maxDevices ≠ 1 then
    some "Plans allow exactly 1 device, as cards bind one"
  else if !(1 ≤ p.concurrency ∧ p.concurrency ≤ 20) then
    some "Plan concurrency must be 1-20"
  else if p.kiroPlanType ∉ kiroPlanTypes then
    some "Plan Kiro types are PRO, PRO_PLUS, PRO_MAX, POWER or CUSTOM"
  else
    none

end Plan

-- The group the plans of a state that has stored none issue into first.
def seedGroup (groups : Table String (Group F)) : String :=
  if "group-pro-plus" ∈ groups then "group-pro-plus"
  else
    let open_ := (groups.values.filter (·.issuanceEnabled)).map (·.id)
    (open_.min?).getD "group-pro-plus"

def seedPlans [F64 F] (groups : Table String (Group F)) : List (Plan F) :=
  (planPrices.zip [10, 20, 30, 40]).map fun (tier, sortOrder) => {
    id             := tier.templateId
    name           := tier.name
    points         := tier.points
    priceCny       := ofInt tier.priceMicroCny.val / lit 1000000
    validityDays   := 30
    maxDevices     := 1
    concurrency    := 2
    defaultGroupId := seedGroup groups
    kiroPlanType   := tier.kiroPlanType
    onSale         := true
    sortOrder      := sortOrder
  }

-- The plan a card was issued from: its own or, before the catalog, the tier its credits name.
def Card.legacyTier (c : Card) : Option PlanPrice :=
  match c.plan, c.issuedCredits with
  | none, some credits =>
    planPrices.find? fun tier => I64.sat (tier.points.val * microCreditsPerCredit) = credits
  | _, _ => none

def Card.planId (c : Card) : Option String :=
  match c.plan with
  | some plan => some plan.id
  | none      => c.legacyTier.map (·.templateId)

def Card.planName (c : Card) : Option String :=
  match c.plan with
  | some plan => some plan.name
  | none      => c.legacyTier.map (·.name)

end Billing
