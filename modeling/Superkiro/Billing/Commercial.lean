import Superkiro.Billing.TemplateCharge

namespace Billing

open F64 Except Host

structure CommercialUpdate (F : Type) where
  expectedRevision  : String
  reason            : String
  settings          : Option (BillingSettings F) := none
  groups            : List (Group F) := []
  models            : List (ModelMap F) := []
  rateCards         : List RateCard := []
  versions          : List (RateCardVersion F) := []
  removedModels     : List String := []
  cancelledVersions : List String := []
  plans             : List (Plan F) := []
  removedPlans      : List String := []

structure CommercialConfig (F : Type) where
  revision    : String
  view        : CommercialView F
  audit       : List CommercialAudit
  plans       : List (Plan F)
  cardsByPlan : List (String × Nat)

namespace Commercial

def maxProviderMultipliers : Nat := 200

def maxOfficialPrices : Nat := 200

def maxRouteCosts : Nat := 200

def invalid (message : String) : BillingError := .invalidState message

def invalidIds (what : String) (ids : List String) : BillingError :=
  .invalidState (what ++ ": " ++ Text.join ", " ids)

def sortById (id : α → String) (xs : List α) : List α := xs.insertionSort fun a b => id a ≤ id b

section

variable [F64 F]

def view (t : Tables F) : CommercialView F where
  groups           := sortById (·.id) t.groups.values
  modelMaps        := sortById (·.id) t.modelMaps
  rateCards        := sortById (·.id) t.rateCards.values
  rateCardVersions := sortById (·.id) t.rateCardVersions
  settings         := t.settings
  plans            := t.plans

def planOrder (ps : List (Plan F)) : List (Plan F) :=
  (sortById (·.id) ps).insertionSort fun a b => a.sortOrder ≤ b.sortOrder

variable [Host F]

def config (t : Tables F) : CommercialConfig F where
  revision    := commercialDigest (view t)
  view        := view t
  audit       := t.commercialAuditLogs
  plans       := planOrder t.planCatalog
  cardsByPlan := t.planCatalog.map fun p =>
    (p.id, (t.cards.values.filter (·.planId = some p.id)).length)

end

section

variable [F64 F]

def positive (n : F) : Bool := isFinite n && lt (lit 0) n && le n (lit 1000)

def multiplier (n : F) : Bool := isFinite n && lt (lit 0) n && le n (lit 100)

def usd (p : Prices F) : Bool := p.toList.all (within 0 10000)

def zipAny (p : α → β → Bool) (xs : List α) (ys : List β) : Bool := (xs.zip ys).any fun e => p e.1 e.2

-- Why a version's official block doesn't describe it. Its credits are the official prices times the
-- price multiplier, to within one micro-credit, and its costs the cost basis times the cost
-- multiplier.
def officialMismatch (v : RateCardVersion F) (o : OfficialPricing F) (routeCost : Bool) :
    Option String :=
  let basis := o.costBasisUsdPerM.getD o.usdPerM
  if v.pricingMode ≠ .fixed || v.currency ≠ .cny || v.marginMultiplier != lit 1 ||
      v.perCallCredit ≠ 0 || !usd o.usdPerM || !usd basis ||
      !o.usdPerM.toList.any (lt (lit 0)) || !multiplier o.priceMultiplier ||
      !multiplier o.costMultiplier || !positive o.usdCny || !positive o.creditFaceValueCny then
    some "Invalid official pricing"
  else if zipAny (fun usd (fixed : I64) =>
      if routeCost then fixed ≠ 0
      else
        let expected := F64.round
          (usd * o.priceMultiplier * o.usdCny / o.creditFaceValueCny * lit 1000000)
        lt (lit 1) (fabs (ofInt fixed.val - expected))) o.usdPerM.toList v.fixedCreditPerM.toList then
    some "Official pricing does not match the credits of"
  else if zipAny (fun usd cost =>
      let expected := usd * o.costMultiplier * o.usdCny
      let tolerance := fmax (lit (1 / 1000000000) * fmax (fabs cost) (fabs expected))
        (lit (1 / 1000000000000))
      lt tolerance (fabs (cost - expected))) basis.toList v.pricePerM.toList then
    some "Official pricing does not match the cost of"
  else
    none

def maxCombinedMultiplier : F := lit 100

def minCreditFaceValueCny : F := lit (1 / 10000)

-- What is left out of given settings keeps its value.
def mergeSettings (current given : BillingSettings F) : BillingSettings F :=
  { given with
    legacyCreditFaceValueCny :=
      some (current.legacyCreditFaceValueCny.getD current.creditFaceValueCny)
    officialUsdCny?          := given.officialUsdCny? <|> current.officialUsdCny?
    defaultPriceMultiplier   := given.defaultPriceMultiplier <|> current.defaultPriceMultiplier
    defaultCostMultiplier    := given.defaultCostMultiplier <|> current.defaultCostMultiplier
    providerCostMultipliers  := given.providerCostMultipliers <|> current.providerCostMultipliers
    officialPrices           := given.officialPrices <|> current.officialPrices
    routeCosts               := given.routeCosts <|> current.routeCosts }

def validOfficialPrice (name : String) (p : OfficialPrice F) : Bool :=
  Text.validId name 256 && usd p.usdPerM &&
  p.note.all fun note => Text.len note ≤ 256 && !note.toList.any Text.isControl

def validRouteCost (route : String) (c : RouteCost F) : Bool :=
  Text.validId route 256 &&
  (Text.splitOnce '/' route).any (fun (provider, model) => !provider.isEmpty && !model.isEmpty) &&
  c.costMultiplier.all multiplier && c.basisUsdPerM.all usd

def validMap (map : Option (Table String α)) (max : Nat) (valid : String → α → Bool) : Bool :=
  map.all fun m => m.entries.length ≤ max && m.entries.all fun e => valid e.1 e.2

-- An official price's time is when its prices last changed.
def stampPrice (current : BillingSettings F) (now : Nat) (name : String) (p : OfficialPrice F) :
    OfficialPrice F :=
  match current.officialPrices.bind (·.lookup name) with
  | some old => { p with
      updatedAtSecs := if old.usdPerM == p.usdPerM then old.updatedAtSecs else now }
  | none     => { p with updatedAtSecs := now }

def checkSettings (s : BillingSettings F) : Result Unit := do
  ensure (s.officialUsdCny?.all positive)
    (invalid "The official dollar rate must be positive and at most 1000")
  ensure (s.defaultPriceMultiplier.all multiplier && s.defaultCostMultiplier.all multiplier &&
    validMap s.providerCostMultipliers maxProviderMultipliers fun id m =>
      Text.validId id 128 && multiplier m)
    (invalid "Multipliers must be positive and at most 100, for at most 200 providers")
  ensure (validMap s.officialPrices maxOfficialPrices validOfficialPrice) (invalid <|
    "Official prices: at most 200, named in 1-256 bytes, priced 0-10000, " ++
    "notes of at most 256 bytes")
  ensure (validMap s.routeCosts maxRouteCosts validRouteCost) (invalid <|
    "Route costs: at most 200, named <provider>/<upstream model> in at most 256 bytes, " ++
    "multipliers positive and at most 100, prices 0-10000")

-- The settings a publication leads to, and whether prices computed from official ones change.
def publishSettings (current given : BillingSettings F) (now : Nat) :
    Result (BillingSettings F × Bool) := do
  ensure (positive given.creditFaceValueCny &&
    !lt given.creditFaceValueCny minCreditFaceValueCny && positive given.usdCnyRate) (invalid <|
    "Face value must be 0.0001-1000 and the exchange rate positive and at most 1000")
  let legacy := current.legacyCreditFaceValueCny.getD current.creditFaceValueCny
  ensure (given.legacyCreditFaceValueCny.all (· == legacy))
    (invalid "The legacy credit face value is immutable")
  let s := mergeSettings current given
  checkSettings s
  let repriced := s.creditFaceValueCny != current.creditFaceValueCny ||
    s.officialUsdCny != current.officialUsdCny
  return ({ s with
    officialPrices    := s.officialPrices.map (·.mapValues (stampPrice current now))
    rateUpdatedAtSecs := now }, repriced)

def publishSettings? (t : Tables F) (given : Option (BillingSettings F)) (now : Nat) :
    Result (Tables F × Bool) :=
  match given with
  | none       => pure (t, false)
  | some given => do
    let (s, repriced) ← publishSettings t.settings given now
    return ({ t with settings := s }, repriced)

def publishRateCards (t : Tables F) (seen : List String) : List RateCard → Result (Tables F)
  | []      => pure t
  | r :: rs => do
    ensure (Text.validId r.id 128 && Text.validId r.name 256 && !seen.contains r.id)
      (invalid "Invalid or duplicate rate card")
    publishRateCards { t with rateCards := t.rateCards.insert r.id r } (r.id :: seen) rs

def validGroup (t : Tables F) (g : Group F) : Bool :=
  Text.validId g.id 128 && Text.validId g.name 256 && Text.validId g.virtualPlanName 256 &&
  positive g.marginMultiplier && isFinite g.virtualUsageLimit &&
  !lt g.virtualUsageLimit (lit 0) && g.systemPromptPrefix.all (Text.len · ≤ 16000) &&
  decide (g.rateCardId ∈ t.rateCards)

def publishGroups (t : Tables F) (seen : List String) : List (Group F) → Result (Tables F)
  | []      => pure t
  | g :: gs => do
    ensure (validGroup t g && !seen.contains g.id) (invalid "Invalid group or unknown rate card")
    publishGroups { t with groups := t.groups.insert g.id g } (g.id :: seen) gs

def replacePlan (plans : List (Plan F)) (p : Plan F) : List (Plan F) :=
  if plans.any (·.id = p.id) then
    match plans.span (·.id ≠ p.id) with
    | (before, _ :: after) => before ++ p :: after
    | (before, [])         => before ++ [p]
  else plans ++ [p]

def addPlans (t : Tables F) (listed : List String) (plans : List (Plan F)) :
    List (Plan F) → Result (List (Plan F))
  | []      => pure plans
  | p :: ps => do
    refuse p.problem (invalidIds · [p.id])
    ensure (!listed.contains p.id) (invalidIds "Duplicate plan" [p.id])
    ensure (decide (p.defaultGroupId ∈ t.groups))
      (invalidIds "Unknown default group of plan" [p.id])
    addPlans t (p.id :: listed) (replacePlan plans p) ps

def removePlan (t : Tables F) (plans : List (Plan F)) (id : String) :
    Result (List (Plan F)) := do
  ensure (plans.any (·.id = id)) (invalidIds "Unknown plan" [id])
  ensure (!t.cards.values.any (·.planId = some id))
    (invalidIds "Plans cards were issued from can only be taken off sale" [id])
  return plans.eraseP (·.id = id)

def publishPlans (t : Tables F) (added : List (Plan F)) (removed : List String) :
    Result (Tables F) :=
  if added.isEmpty && removed.isEmpty then pure t
  else do
    let plans ← addPlans t [] t.planCatalog added
    let plans ← removed.foldlM (removePlan t) plans
    ensure (plans.length ≤ maxPlans) (invalid "At most 100 plans")
    return { t with plans := some (sortById (·.id) plans) }

def efforts : List String := ["low", "medium", "high", "xhigh", "max", "ultra"]

def validModel (m : ModelMap F) : Bool :=
  Text.validId m.id 128 && Text.validId m.targetModel 256 && positive m.creditMultiplier &&
  m.maxOutput ≠ 0 && m.maxOutput ≤ m.contextWindow && m.contextWindow ≤ 10000000 &&
  m.aliases.length ≤ 32 && m.fallbackChain.length ≤ 8 &&
  m.displayName.all (Text.validId · 64) && m.description.all (Text.validId · 256) &&
  m.rateMultiplier.all positive && m.thinkingSurchargeMultiplier.all positive &&
  m.contextSurchargeMultiplier.all positive && m.thinkingSurchargeThreshold.all efforts.contains

-- A listed mapping in place of the one of its id, or a new one.
def putModel (maps : List (ModelMap F)) (m : ModelMap F) : Result (List (ModelMap F)) :=
  match maps.span (·.id ≠ m.id) with
  | (before, old :: after) => do
    ensure (old.groupId = m.groupId) (invalid "Cannot move mapping between groups")
    return before ++ m :: after
  | (before, [])           => pure (before ++ [m])

def publishModels (seen : List String) (maps : List (ModelMap F)) :
    List (ModelMap F) → Result (List (ModelMap F))
  | []      => pure maps
  | m :: ms => do
    refuse (m.names.find? fun id => !validModelId id) fun id => invalidIds "Invalid model ID" [id]
    ensure (validModel m && !seen.contains m.id) (invalid "Invalid or duplicate model mapping")
    let maps ← putModel maps m
    publishModels (m.id :: seen) maps ms

def removeModel (maps : List (ModelMap F)) (id : String) : Result (List (ModelMap F)) := do
  ensure ((maps.find? (·.id = id)).any fun m => !m.isListed)
    (invalidIds "Only hidden or retired mappings can be removed" [id])
  return maps.eraseP (·.id = id)

-- Whether a mapping's primary target has an enabled key that may call it.
def isServable (t : Tables F) (m : ModelMap F) : Bool :=
  (t.providers.lookup m.targetProviderId).any (·.enabled) &&
  t.providerKeys.values.any fun k =>
    k.providerId = m.targetProviderId && k.enabled && k.supportsModel m.targetModel

def checkTarget (t : Tables F) (g : Group F) (target : FallbackTarget) : Result Unit := do
  let p ← ofOption (t.providers.lookup target.providerId) (invalid "Unknown target provider")
  ensure (Text.validId target.targetModel 256 && g.canAccessProvider p.groupId)
    (invalid "Provider not accessible to model group")

-- The names a group exposes must differ. Goes through the names of a mapping with those exposed
-- before.
def exposeNames (groupId : String) (exposed : List (String × String)) :
    List String → Result (List (String × String))
  | []      => pure exposed
  | n :: ns => do
    ensure (!exposed.contains (groupId, n)) (invalid "Ambiguous model ID or alias")
    exposeNames groupId ((groupId, n) :: exposed) ns

def checkModels (t : Tables F) (exposed : List (String × String)) : List (ModelMap F) → Result Unit
  | []      => pure ()
  | m :: ms => do
    let g ← ofOption (t.groups.lookup m.groupId) (invalid "Unknown model group")
    checkAll m.fullTargetChain (checkTarget t g)
    let exposed ← exposeNames m.groupId exposed m.names
    checkModels t exposed ms

-- The models a publication lists that no key can serve, each once.
def unroutable (t : Tables F) (published : List String) : List String :=
  ((t.modelMaps.filter fun m => published.contains m.id && m.isListed && !isServable t m).map
    (·.exposedModelId)).foldl pushNew []

def publishCatalog (t : Tables F) (u : CommercialUpdate F) : Result (Tables F) := do
  let maps ← publishModels [] t.modelMaps u.models
  let maps ← u.removedModels.foldlM removeModel maps
  let t := { t with modelMaps := maps }
  checkModels t [] maps
  let unroutable := unroutable t (u.models.map (·.id))
  ensure unroutable.isEmpty
    (invalidIds "Visible model target has no enabled compatible key" unroutable)
  return t

-- Only a scheduled price can be withdrawn.
def cancelVersion (now : Nat) (versions : List (RateCardVersion F)) (id : String) :
    Result (List (RateCardVersion F)) := do
  ensure ((versions.find? (·.id = id)).any fun v => now < v.effectiveFromSecs)
    (invalidIds "Only scheduled prices can be cancelled" [id])
  return versions.eraseP (·.id = id)

def validPrice (v : RateCardVersion F) (t : Tables F) : Bool :=
  Text.validId v.id 128 && Text.validId v.model 256 && positive v.marginMultiplier &&
  v.pricePerM.toList.all (fun p => isFinite p && !lt p (lit 0) && !lt (lit 1000000) p) &&
  (v.fixedCreditPerM.toList ++ [v.perCallCredit]).all
    (fun p => 0 ≤ p && p ≤ 1000000000000) &&
  decide (v.rateCardId ∈ t.rateCards)

def retroactive : BillingError := invalid "Invalid pricing; retroactive publication forbidden"

-- Whether a version's name is that of a route, whose cost charges nothing.
def isRouteCost (t : Tables F) (model : String) : Bool :=
  t.providers.keys.any fun id => (Text.stripPrefix model id).any (Text.startsWith · "/")

def checkOfficial (t : Tables F) (v : RateCardVersion F) : Result Unit :=
  refuse (v.official.bind fun o => officialMismatch v o (isRouteCost t v.model))
    (invalidIds · [v.model])

def isSamePrice (v w : RateCardVersion F) : Bool :=
  w.id = v.id || (w.rateCardId = v.rateCardId && w.model = v.model &&
    w.effectiveFromSecs = v.effectiveFromSecs)

-- A model's first price may start now, whatever time it names, and so may one computed from an
-- official price when what it is computed at changes. Any other price is never back-dated.
def startTime (priced : List (String × String)) (repriced : Bool) (now : Nat)
    (v : RateCardVersion F) : Result (RateCardVersion F) :=
  if v.effectiveFromSecs < now then do
    ensure (!priced.contains (v.rateCardId, v.model) || (repriced && v.official.isSome))
      retroactive
    return { v with effectiveFromSecs := now }
  else pure v

-- The price versions of a publication, and what it audits of them.
structure Versions (F : Type) where
  versions : List (RateCardVersion F)
  audit    : List RateCardAuditLog

def auditVersion (live : Tables F) (reason : String) (now : Nat) (v : RateCardVersion F) :
    RateCardAuditLog where
  id                := "publish-" ++ v.id
  rateCardId        := v.rateCardId
  versionId         := v.id
  operatorId        := "admin-session"
  reason            := reason
  createdAtSecs     := now
  previousVersionId := (live.resolvePrice v.rateCardId [v.model] now).map (·.id)

def addVersion (live t : Tables F) (priced : List (String × String)) (repriced : Bool)
    (reason : String) (now : Nat) (s : Versions F) (v : RateCardVersion F) :
    Result (Versions F) := do
  ensure (validPrice v t) retroactive
  checkOfficial t v
  let v ← startTime priced repriced now v
  ensure (!s.versions.any (isSamePrice v))
    (invalid "Published prices immutable; use new ID and timestamp")
  return ⟨s.versions ++ [v], s.audit ++ [auditVersion live reason now v]⟩

-- In force, or scheduled: a version no later one in force has superseded.
def isLive (versions : List (RateCardVersion F)) (now : Nat) (v : RateCardVersion F) : Bool :=
  now < v.effectiveFromSecs || !versions.any fun w =>
    w.rateCardId = v.rateCardId && w.model = v.model &&
    v.effectiveFromSecs < w.effectiveFromSecs && w.effectiveFromSecs ≤ now

-- The models whose official pricing is at another face value or rate than the one in force.
def staleModels (t : Tables F) (published : List String) (repriced : Bool) (now : Nat) :
    List String :=
  ((t.rateCardVersions.filter fun v => isLive t.rateCardVersions now v &&
    v.official.any fun o => (repriced || published.contains v.id) &&
      (o.creditFaceValueCny != t.settings.creditFaceValueCny ||
        o.usdCny != t.settings.officialUsdCny)).map (·.model)).foldl pushNew []

def publishVersions (live t : Tables F) (u : CommercialUpdate F) (repriced : Bool) (now : Nat) :
    Result (Tables F) := do
  let versions ← u.cancelledVersions.foldlM (cancelVersion now) t.rateCardVersions
  let priced := versions.map fun v => (v.rateCardId, v.model)
  let s ← u.versions.foldlM (addVersion live t priced repriced u.reason now)
    ⟨versions, t.rateCardAuditLogs⟩
  let t := { t with rateCardVersions := s.versions, rateCardAuditLogs := s.audit }
  let stale := staleModels t (u.versions.map (·.id)) repriced now
  ensure stale.isEmpty (invalidIds "Official pricing is at a stale face value or rate" stale)
  return t

-- How much margins and multipliers come to together at most.
def combinedMultiplier (t : Tables F) (now : Nat) : F :=
  let live := t.rateCardVersions.filter (isLive t.rateCardVersions now)
  (live.map (·.marginMultiplier)).foldl fmax (lit 1) *
    (t.groups.values.map (·.marginMultiplier)).foldl fmax (lit 1) *
    (t.modelMaps.map (·.creditMultiplier)).foldl fmax (lit 1)

def isEmptyUpdate (u : CommercialUpdate F) : Bool :=
  u.groups.isEmpty && u.models.isEmpty && u.rateCards.isEmpty && u.versions.isEmpty &&
  u.removedModels.isEmpty && u.cancelledVersions.isEmpty && u.plans.isEmpty &&
  u.removedPlans.isEmpty && u.settings.isNone

-- Whether a hold that captured no price would be repriced by a publication.
def isUnpriced (t : Tables F) (id : String) (r : CreditReservation F) : Bool :=
  r.state = .held && r.pricing.isNone && !decide (id ∈ t.pendingSettlements)

-- The tables with the configuration of others.
def configured (t live : Tables F) : Tables F :=
  { live with
    settings            := t.settings
    commercialAuditLogs := t.commercialAuditLogs
    groups              := t.groups
    plans               := t.plans
    modelMaps           := t.modelMaps
    rateCards           := t.rateCards
    rateCardVersions    := t.rateCardVersions
    rateCardAuditLogs   := t.rateCardAuditLogs }

variable [Host F]

def publishCommercialConfig (live : Tables F) (u : CommercialUpdate F) (now : Nat) :
    Result (Txn F (CommercialConfig F)) := do
  ensure (Text.validId u.reason 500) (invalid "Publication reason required (max 500 bytes)")
  ensure (!isEmptyUpdate u) (invalid "Empty publication")
  ensure (commercialDigest (view live) = u.expectedRevision)
    (invalid "Configuration changed; reload before publishing")
  ensure (!live.reservations.entries.any fun e => isUnpriced live e.1 e.2)
    (invalid "Requests are still settling; publish when idle")
  let (t, repriced) ← publishSettings? live u.settings now
  let t ← publishRateCards t [] u.rateCards
  let t ← publishGroups t [] u.groups
  let t ← publishPlans t u.plans u.removedPlans
  let t ← publishCatalog t u
  let t ← publishVersions live t u repriced now
  ensure (!lt maxCombinedMultiplier (combinedMultiplier t now))
    (invalid "Margins and model multipliers combine to more than 100x")
  let t := { t with
    commercialAuditLogs := t.commercialAuditLogs ++
      [⟨u.expectedRevision, commercialDigest (view t), u.reason, "admin-session", now⟩] }
  return .write t (configured t) (config t)

end
end Commercial

def Engine.publishCommercialConfig [F64 F] [Host F] (e : Engine F) (io : Io)
    (u : CommercialUpdate F) (now : Nat) : Result (CommercialConfig F) × Engine F :=
  e.transact io (Commercial.publishCommercialConfig e.tables u now)

end Billing
